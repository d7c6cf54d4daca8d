import Mathlib
import PgYaap.HashJoinProbe
import PgYaap.LinkedChain

/-! # What the probe loops produce

Over a table whose chains end, every probe row has a list of candidates, the rows
of its chain that the loop accepts. The theorems say that the loops terminate
and that what they have written together with what the cursor still has to come
is, at any time, what all probe rows make of their candidates. -/
namespace PgYaap
namespace HashJoinProbe
open HashJoinCombine

/-- Whether a loop takes a pair for a match. -/
def ProbeInput.accepts (v : ProbeInput) (rowIdx : Nat) (buildRowIdx : UInt32) : Bool :=
  v.keyMatches rowIdx buildRowIdx && v.filterPasses rowIdx buildRowIdx

/-- The chain entered at a row. -/
def Chain (t : HashTable) (rowIdx : UInt32) (l : List UInt32) : Prop :=
  LinkedChain invalidRow t.links rowIdx l

/-- The chain of every probe row ends, its accepted rows carry the salt of the
probe row, and `candidates` lists them. -/
structure Reaches (t : HashTable) (v : ProbeInput) (candidates : Nat → List UInt32) : Prop where
  chain : ∀ p, p < v.count → ∃ l,
    Chain t (t.bucketHeads (hashBucket t.capacity (v.hash p))) l ∧
      (∀ g ∈ l, v.accepts p g = true → t.salts g = hashJoinSalt (v.hash p)) ∧
      candidates p = l.filter (v.accepts p)

/-- What a probe row still contributes, from whether it was matched before and
the candidates to come. -/
def rowRest (mode : HashJoinMatchMode) (p : Nat) (matchedBefore : Bool) (m : List UInt32) :
    List JoinedRow :=
  match mode with
  | .inner => m.map fun g => (p, some g)
  | .left =>
    if m.isEmpty && !matchedBefore then [(p, none)] else m.map fun g => (p, some g)
  | .semi => (m.take 1).map fun g => (p, some g)
  | .anti => if m.isEmpty && !matchedBefore then [(p, none)] else []

/-- What the probe rows from `p` on contribute. -/
def rowsFrom (mode : HashJoinMatchMode) (count : Nat) (candidates : Nat → List UInt32) (p : Nat) :
    List JoinedRow :=
  (List.range' p (count - p)).flatMap fun p => rowRest mode p false (candidates p)

theorem rowsFrom_of_le {mode : HashJoinMatchMode} {count p : Nat} {candidates : Nat → List UInt32}
    (h : count ≤ p) : rowsFrom mode count candidates p = [] := by
  rw [rowsFrom, Nat.sub_eq_zero_of_le h]
  rfl

theorem rowsFrom_of_lt {mode : HashJoinMatchMode} {count p : Nat} {candidates : Nat → List UInt32}
    (h : p < count) :
    rowsFrom mode count candidates p =
      rowRest mode p false (candidates p) ++ rowsFrom mode count candidates (p + 1) := by
  have hcount : count - p = count - (p + 1) + 1 := by omega
  rw [rowsFrom, hcount, List.range'_succ, List.flatMap_cons]
  rfl

/-- The log of matches holds candidates only. -/
def Sound (count : Nat) (candidates : Nat → List UInt32) (matched : List (Nat × UInt32)) : Prop :=
  ∀ x ∈ matched, x.1 < count ∧ x.2 ∈ candidates x.1

/-- Every output row with a build row is in the log of matches. -/
def Logged (out : List JoinedRow) (matched : List (Nat × UInt32)) : Prop :=
  ∀ x ∈ out, ∀ g, x.2 = some g → (x.1, g) ∈ matched

theorem Logged.mono {out : List JoinedRow} {matched matched' : List (Nat × UInt32)}
    (h : Logged out matched) (hsub : matched ⊆ matched') : Logged out matched' :=
  fun x hx g hg => hsub (h x hx g hg)

theorem Logged.append {out out' : List JoinedRow} {matched : List (Nat × UInt32)}
    (h : Logged out matched) (h' : Logged out' matched) : Logged (out ++ out') matched := by
  intro x hx
  rcases List.mem_append.mp hx with hx | hx
  · exact h x hx
  · exact h' x hx

theorem Logged.push {out : List JoinedRow} {matched : List (Nat × UInt32)} (h : Logged out matched)
    (p : Nat) (g : UInt32) : Logged (out ++ [(p, some g)]) (matched ++ [(p, g)]) := by
  refine (h.mono (List.subset_append_left _ _)).append fun x hx g' hg' => ?_
  rw [List.mem_singleton.mp hx] at hg' ⊢
  cases hg'
  exact List.mem_append_right _ (List.mem_singleton_self _)

theorem Sound.push {count : Nat} {candidates : Nat → List UInt32} {matched : List (Nat × UInt32)}
    (h : Sound count candidates matched) {p : Nat} {g : UInt32} (hp : p < count)
    (hg : g ∈ candidates p) : Sound count candidates (matched ++ [(p, g)]) := by
  intro x hx
  rcases List.mem_append.mp hx with hx | hx
  · exact h x hx
  · rw [List.mem_singleton.mp hx]
    exact ⟨hp, hg⟩

section Chains
variable {t : HashTable} {v : ProbeInput} {salt : UInt16} {rowIdx : UInt32} {l : List UInt32}

theorem Chain.idx_eq_invalid (h : Chain t invalidRow l) : l = [] := LinkedChain.eq_nil h

theorem Chain.cons_of_ne (h : Chain t rowIdx l) (hne : rowIdx ≠ invalidRow) :
    ∃ l', l = rowIdx :: l' ∧ Chain t (t.links rowIdx) l' := by
  cases h with
  | nil => exact absurd rfl hne
  | cons _ hl => exact ⟨_, rfl, hl⟩

/-- Skipping stops in the chain, past rows that are not accepted. -/
theorem skipOtherSalts_arrives (h : Chain t rowIdx l) {q : UInt32 → Bool}
    (hsalt : ∀ g ∈ l, q g = true → t.salts g = salt) :
    ∃ rowIdx' l', Arrives (fun n => skipOtherSalts t salt n rowIdx) rowIdx' ∧ Chain t rowIdx' l' ∧
      l' ⊆ l ∧ l'.length ≤ l.length ∧ l'.filter q = l.filter q := by
  induction h with
  | nil =>
    refine ⟨invalidRow, [], Arrives.of_succ ⟨0, fun n _ => ?_⟩, .nil, fun _ hg => hg, le_refl _, rfl⟩
    simp [skipOtherSalts]
  | @cons g l hne hl ih =>
    by_cases heq : t.salts g = salt
    · refine ⟨g, g :: l, Arrives.of_succ ⟨0, fun n _ => ?_⟩, .cons hne hl, fun _ hg => hg,
        le_refl _, rfl⟩
      simp [skipOtherSalts, heq]
    · obtain ⟨rowIdx', l', harr, hchain, hsub, hlen, hfilter⟩ :=
        ih fun x hx => hsalt x (List.mem_cons_of_mem _ hx)
      refine ⟨rowIdx', l', Arrives.of_succ ?_, hchain, fun x hx => List.mem_cons_of_mem _ (hsub hx),
        ?_, ?_⟩
      · obtain ⟨N, hN⟩ := harr
        refine ⟨N, fun n hn => ?_⟩
        simp only [skipOtherSalts, hne, heq, ne_eq, not_false_eq_true, and_self, if_true]
        exact hN n hn
      · rw [List.length_cons]
        omega
      · have hq : q g = false := by
          by_contra hq
          exact heq (hsalt g List.mem_cons_self (by simpa using hq))
        rw [hfilter, List.filter_cons_of_neg (by simp [hq])]

end Chains

section General
variable {t : HashTable} {v : ProbeInput} {candidates : Nat → List UInt32}
  {mode : HashJoinMatchMode}

/-- What the cursor still has to come in the current row. -/
def cursorRest (mode : HashJoinMatchMode) (c : HashJoinProbeCursor) (m : List UInt32) :
    List JoinedRow :=
  if c.buildRowIdx = invalidRow then [] else rowRest mode c.probeRowIdx c.probeMatched m

/-- What the walk of a chain has done when it stops. -/
structure Walked (t : HashTable) (v : ProbeInput) (candidates : Nat → List UInt32)
    (mode : HashJoinMatchMode) (room : Nat) (c : HashJoinProbeCursor) (total : List JoinedRow)
    (matched : List (Nat × UInt32)) (l : List UInt32) (r : ProbeState) : Prop where
  same : r.cursor =
    { c with buildRowIdx := r.cursor.buildRowIdx, probeMatched := r.cursor.probeMatched }
  rest : ∃ l', Chain t r.cursor.buildRowIdx l' ∧ l' ⊆ l ∧
    total = unmatchedRow mode r.cursor r.out ++
      cursorRest mode r.cursor (l'.filter (v.accepts c.probeRowIdx))
  full : r.cursor.buildRowIdx ≠ invalidRow → room ≤ r.out.length
  kept : matched ⊆ r.matched
  sound : Sound v.count candidates r.matched
  logged : Logged r.out r.matched

theorem unmatchedRow_of_ne {c : HashJoinProbeCursor} {batch : List JoinedRow}
    (h : batch ≠ [] ∨ c.probeMatched = true ∨ mode = .inner ∨ mode = .semi) :
    unmatchedRow mode c batch = batch := by
  unfold unmatchedRow
  rw [if_neg]
  rintro ⟨hmode, _, hnil, hnot⟩
  rcases h with h | h | h | h
  · exact h hnil
  · rw [h] at hnot
    cases hnot
  · rw [h] at hmode
    rcases hmode with hm | hm <;> cases hm
  · rw [h] at hmode
    rcases hmode with hm | hm <;> cases hm

/-- A chain at its end: a row without match is null-extended where the mode asks for it. -/
theorem unmatchedRow_end {c : HashJoinProbeCursor} {batch : List JoinedRow}
    (hend : c.buildRowIdx = invalidRow) (hbatch : batch = [] ∨ mode.pairs = true ∧ c.probeMatched = true) :
    batch ++ rowRest mode c.probeRowIdx c.probeMatched [] = unmatchedRow mode c batch := by
  rcases hbatch with rfl | ⟨hmode, hm⟩
  · unfold unmatchedRow
    cases mode <;> cases hmatched : c.probeMatched <;> simp [rowRest, hend]
  · rw [unmatchedRow_of_ne (Or.inr (Or.inl hm)), hm]
    cases mode with
    | inner => simp [rowRest]
    | left => simp [rowRest]
    | semi => cases hmode
    | anti => cases hmode

/-- **The walk of a chain.** By induction on the chain: what is in the batch and
what is still to come stay the same. -/
theorem chainLoop_arrives (room : Nat) {p : Nat} {c : HashJoinProbeCursor} (hp : c.probeRowIdx = p)
    (hcount : p < v.count) {l : List UInt32} (hchain : Chain t c.buildRowIdx l)
    (hsalt : ∀ g ∈ l, v.accepts p g = true → t.salts g = c.probeSalt)
    (hcand : ∀ g ∈ l, v.accepts p g = true → g ∈ candidates p) {batch : List JoinedRow}
    {matched : List (Nat × UInt32)} (hbatch : batch = [] ∨ mode.pairs = true ∧ c.probeMatched = true)
    (hsound : Sound v.count candidates matched) (hlogged : Logged batch matched) :
    ∃ r, Arrives (fun n => chainLoop t mode v room n c batch matched) r ∧
      Walked t v candidates mode room c
        (batch ++ rowRest mode p c.probeMatched (l.filter (v.accepts p))) matched l r := by
  induction hlen : l.length using Nat.strong_induction_on generalizing c l batch matched with
  | _ k ih =>
  by_cases hend : c.buildRowIdx = invalidRow
  · have hl : l = [] := Chain.idx_eq_invalid (hend ▸ hchain)
    subst hl
    refine ⟨⟨c, batch, matched⟩, Arrives.of_succ ⟨0, fun n _ => ?_⟩,
      ⟨rfl, ⟨[], hchain, fun _ hg => hg, ?_⟩, fun h => absurd hend h, fun _ hx => hx, hsound, hlogged⟩⟩
    · simp only [chainLoop, hend, if_true]
    · subst hp
      rw [cursorRest, if_pos hend, List.append_nil]
      exact unmatchedRow_end hend hbatch
  · obtain ⟨l1, rfl, htail⟩ := hchain.cons_of_ne hend
    obtain ⟨next, l2, hskip, hchain2, hsub, hle, hfilter⟩ :=
      skipOtherSalts_arrives htail fun g hg => hsalt g (List.mem_cons_of_mem _ hg)
    have hsub2 : l2 ⊆ c.buildRowIdx :: l1 := fun g hg => List.mem_cons_of_mem _ (hsub hg)
    have hlt : l2.length < k := by
      rw [← hlen, List.length_cons]
      omega
    by_cases hacc : v.accepts p c.buildRowIdx = true
    · have hm : (c.buildRowIdx :: l1).filter (v.accepts p) =
          c.buildRowIdx :: l2.filter (v.accepts p) := by
        rw [List.filter_cons_of_pos hacc, hfilter]
      have hsound' : Sound v.count candidates (matched ++ [(p, c.buildRowIdx)]) :=
        hsound.push hcount (hcand _ List.mem_cons_self hacc)
      have hacc' : (v.keyMatches p c.buildRowIdx && v.filterPasses p c.buildRowIdx) = true := hacc
      -- a stop that leaves the chain for good
      have hstop : ∀ (m : HashJoinMatchMode) (out : List JoinedRow), m.pairs = false → mode = m →
          Logged out (matched ++ [(p, c.buildRowIdx)]) →
          (∀ n, chainLoop t m v room (n + 1) c batch matched =
            (skipOtherSalts t c.probeSalt n (t.links c.buildRowIdx)).bind fun _ =>
              some ⟨{ c with buildRowIdx := invalidRow, probeMatched := true }, out,
                matched ++ [(p, c.buildRowIdx)]⟩) →
          batch ++ rowRest m p c.probeMatched (c.buildRowIdx :: l2.filter (v.accepts p)) = out →
          ∃ r, Arrives (fun n => chainLoop t mode v room n c batch matched) r ∧
            Walked t v candidates mode room c
              (batch ++ rowRest mode p c.probeMatched ((c.buildRowIdx :: l1).filter (v.accepts p)))
              matched (c.buildRowIdx :: l1) r := by
        rintro m out hpairs rfl hlog hstep hout
        refine ⟨⟨{ c with buildRowIdx := invalidRow, probeMatched := true }, out,
          matched ++ [(p, c.buildRowIdx)]⟩, ?_, ⟨rfl, ⟨[], .nil, List.nil_subset _, ?_⟩,
          fun h => absurd rfl h, List.subset_append_left _ _, hsound', hlog⟩⟩
        · apply Arrives.of_succ
          simp only [hstep]
          exact hskip.bind (Arrives.pure _)
        · rw [hm, hout, unmatchedRow_of_ne (Or.inr (Or.inl rfl)), cursorRest, if_pos rfl,
            List.append_nil]
      -- a step that stays in the chain
      have hgo : ∀ m : HashJoinMatchMode, m.pairs = true → mode = m →
          (∀ n, chainLoop t m v room (n + 1) c batch matched =
            (skipOtherSalts t c.probeSalt n (t.links c.buildRowIdx)).bind fun next =>
              if room ≤ (batch ++ [(p, some c.buildRowIdx)]).length then
                some ⟨{ c with buildRowIdx := next, probeMatched := true },
                  batch ++ [(p, some c.buildRowIdx)], matched ++ [(p, c.buildRowIdx)]⟩
              else chainLoop t m v room n { c with buildRowIdx := next, probeMatched := true }
                (batch ++ [(p, some c.buildRowIdx)]) (matched ++ [(p, c.buildRowIdx)])) →
          rowRest m p c.probeMatched (c.buildRowIdx :: l2.filter (v.accepts p)) =
            (p, some c.buildRowIdx) :: rowRest m p true (l2.filter (v.accepts p)) →
          ∃ r, Arrives (fun n => chainLoop t mode v room n c batch matched) r ∧
            Walked t v candidates mode room c
              (batch ++ rowRest mode p c.probeMatched ((c.buildRowIdx :: l1).filter (v.accepts p)))
              matched (c.buildRowIdx :: l1) r := by
        rintro m hpairs rfl hstep hrow
        rw [hm, hrow, List.append_cons]
        by_cases hroom : room ≤ (batch ++ [(p, some c.buildRowIdx)]).length
        · refine ⟨⟨{ c with buildRowIdx := next, probeMatched := true },
            batch ++ [(p, some c.buildRowIdx)], matched ++ [(p, c.buildRowIdx)]⟩, ?_,
            ⟨rfl, ⟨l2, hchain2, hsub2, ?_⟩, fun _ => hroom, List.subset_append_left _ _, hsound',
              hlogged.push p c.buildRowIdx⟩⟩
          · apply Arrives.of_succ
            simp only [hstep, if_pos hroom]
            exact hskip.bind (Arrives.pure _)
          · rw [unmatchedRow_of_ne (Or.inr (Or.inl rfl)), cursorRest]
            subst hp
            by_cases hnext : next = invalidRow
            · have hl2 : l2 = [] := Chain.idx_eq_invalid (hnext ▸ hchain2)
              rw [if_pos hnext, hl2]
              cases mode with
              | inner => rfl
              | left => rfl
              | semi => cases hpairs
              | anti => cases hpairs
            · rw [if_neg hnext]
        · obtain ⟨r, harr, hw⟩ := ih l2.length hlt (c := { c with
              buildRowIdx := next, probeMatched := true }) hp hchain2
            (fun g hg => hsalt g (hsub2 hg)) (fun g hg => hcand g (hsub2 hg))
            (Or.inr ⟨hpairs, rfl⟩) hsound' (hlogged.push p c.buildRowIdx) rfl
          refine ⟨r, ?_, ⟨hw.same, ?_, hw.full, fun x hx => hw.kept (List.mem_append_left _ hx),
            hw.sound, hw.logged⟩⟩
          · apply Arrives.of_succ
            simp only [hstep, if_neg hroom]
            exact hskip.bind harr
          · obtain ⟨l', hchain', hsub', htotal⟩ := hw.rest
            exact ⟨l', hchain', fun g hg => hsub2 (hsub' hg), htotal⟩
      cases hmode : mode with
      | inner =>
        refine hmode ▸ hgo .inner rfl hmode (fun n => ?_) rfl
        simp only [chainLoop, hend, if_false, hp, hacc', if_true]
      | left =>
        refine hmode ▸ hgo .left rfl hmode (fun n => ?_) ?_
        · simp only [chainLoop, hend, if_false, hp, hacc', if_true]
        · simp [rowRest]
      | semi =>
        have hnil : batch = [] := by
          rcases hbatch with h | ⟨h, _⟩
          · exact h
          · rw [hmode] at h
            cases h
        refine hmode ▸ hstop .semi (batch ++ [(p, some c.buildRowIdx)]) rfl hmode
          (hlogged.push p c.buildRowIdx) (fun n => ?_) rfl
        simp only [chainLoop, hend, if_false, hp, hacc', if_true]
      | anti =>
        have hnil : batch = [] := by
          rcases hbatch with h | ⟨h, _⟩
          · exact h
          · rw [hmode] at h
            cases h
        refine hmode ▸ hstop .anti [] rfl hmode (fun x hx => by cases hx) (fun n => ?_) ?_
        · simp only [chainLoop, hend, if_false, hp, hacc', if_true]
        · rw [hnil]
          rfl
    · have hacc' : (v.keyMatches p c.buildRowIdx && v.filterPasses p c.buildRowIdx) = false := by
        simpa [ProbeInput.accepts] using hacc
      obtain ⟨r, harr, hw⟩ := ih l2.length hlt (c := { c with buildRowIdx := next }) hp hchain2
        (fun g hg => hsalt g (hsub2 hg)) (fun g hg => hcand g (hsub2 hg)) hbatch hsound hlogged rfl
      refine ⟨r, ?_, ⟨hw.same, ?_, hw.full, hw.kept, hw.sound, hw.logged⟩⟩
      · apply Arrives.of_succ
        rw [hp] at harr
        simp only [chainLoop, hend, if_false, hp, hacc', Bool.false_eq_true]
        exact hskip.bind harr
      · obtain ⟨l', hchain', hsub', htotal⟩ := hw.rest
        refine ⟨l', hchain', fun g hg => hsub2 (hsub' hg), ?_⟩
        rw [List.filter_cons_of_neg hacc, ← hfilter]
        exact htotal

/-- `R` is what the cursor still has to come: the rest of a chain and the probe rows
after it, or the probe rows from the cursor on. -/
inductive Pending (t : HashTable) (v : ProbeInput) (candidates : Nat → List UInt32)
    (mode : HashJoinMatchMode) (c : HashJoinProbeCursor) : List JoinedRow → Prop
  | between (hhave : c.haveBuildCursor = false) :
      Pending t v candidates mode c (rowsFrom mode v.count candidates c.probeRowIdx)
  | within (hhave : c.haveBuildCursor = true) (hcount : c.probeRowIdx < v.count) {l : List UInt32}
      (hchain : Chain t c.buildRowIdx l)
      (hsalt : ∀ g ∈ l, v.accepts c.probeRowIdx g = true → t.salts g = c.probeSalt)
      (hcand : ∀ g ∈ l, v.accepts c.probeRowIdx g = true → g ∈ candidates c.probeRowIdx) :
      Pending t v candidates mode c
        (rowRest mode c.probeRowIdx c.probeMatched (l.filter (v.accepts c.probeRowIdx)) ++
          rowsFrom mode v.count candidates (c.probeRowIdx + 1))

/-- Nothing is pending past the last probe row. -/
theorem Pending.eq_nil {c : HashJoinProbeCursor} {R : List JoinedRow}
    (h : Pending t v candidates mode c R) (hp : v.count ≤ c.probeRowIdx) : R = [] := by
  cases h with
  | between _ => exact rowsFrom_of_le hp
  | within _ hcount _ _ _ => omega

/-- The cursor fields a loop leaves alone. -/
def SameCall (c c' : HashJoinProbeCursor) : Prop :=
  c'.activeProbe = c.activeProbe ∧ c'.currentInputDrained = c.currentInputDrained

/-- Entering the chain of a probe row. -/
theorem startProbeRow_arrives (hreach : Reaches t v candidates) {c : HashJoinProbeCursor}
    (hcount : c.probeRowIdx < v.count) :
    ∃ c1 l, Arrives (fun n => startProbeRow t v n c) c1 ∧ SameCall c c1 ∧
      c1.probeRowIdx = c.probeRowIdx ∧ c1.haveBuildCursor = true ∧ c1.probeMatched = false ∧
      Chain t c1.buildRowIdx l ∧
      (∀ g ∈ l, v.accepts c.probeRowIdx g = true → t.salts g = c1.probeSalt) ∧
      l.filter (v.accepts c.probeRowIdx) = candidates c.probeRowIdx := by
  obtain ⟨l, hchain, hsalt, hcand⟩ := hreach.chain c.probeRowIdx hcount
  obtain ⟨rowIdx, l', harr, hchain', hsub, _, hfilter⟩ := skipOtherSalts_arrives hchain hsalt
  refine ⟨{ c with
    probeSalt := hashJoinSalt (v.hash c.probeRowIdx)
    buildRowIdx := rowIdx
    haveBuildCursor := true
    probeMatched := false }, l', ?_, ⟨rfl, rfl⟩, rfl, rfl, rfl, hchain',
    fun g hg => hsalt g (hsub hg), hfilter.trans hcand.symm⟩
  obtain ⟨N, hN⟩ := harr
  refine ⟨N, fun n hn => ?_⟩
  simp only [startProbeRow, hN n hn, Option.map_some]

/-- What a run of a loop has done when it stops. -/
structure Probed (v : ProbeInput) (candidates : Nat → List UInt32)
    (pending : HashJoinProbeCursor → List JoinedRow → Prop) (s : ProbeState) (R : List JoinedRow)
    (r : ProbeState) : Prop where
  sameCall : SameCall s.cursor r.cursor
  rest : ∃ R', pending r.cursor R' ∧ s.out ++ R = r.out ++ R'
  stopped : v.count ≤ r.cursor.probeRowIdx ∨ chunkSize ≤ r.out.length
  sound : Sound v.count candidates r.matched
  logged : Logged r.out r.matched

theorem Logged.unmatchedRow {c : HashJoinProbeCursor} {batch : List JoinedRow}
    {matched : List (Nat × UInt32)} (h : Logged batch matched) :
    Logged (HashJoinProbe.unmatchedRow mode c batch) matched := by
  unfold HashJoinProbe.unmatchedRow
  split
  · intro x hx g hg
    rw [List.mem_singleton.mp hx] at hg
    cases hg
  · exact h

/-- **The general probe loop** terminates, and keeps what is written and what is
pending together. By induction on the probe rows to come. -/
theorem probeLoop_arrives (hreach : Reaches t v candidates) {s : ProbeState} {R : List JoinedRow}
    (hpend : Pending t v candidates mode s.cursor R) (hsound : Sound v.count candidates s.matched)
    (hlogged : Logged s.out s.matched) :
    ∃ r, Arrives (fun n => probeLoop t mode v n s) r ∧
      Probed v candidates (Pending t v candidates mode) s R r := by
  induction hk : v.count - s.cursor.probeRowIdx generalizing s R with
  | zero =>
    have hend : v.count ≤ s.cursor.probeRowIdx := by omega
    refine ⟨s, Arrives.of_succ ⟨0, fun n _ => ?_⟩,
      ⟨⟨rfl, rfl⟩, ⟨R, hpend, rfl⟩, Or.inl hend, hsound, hlogged⟩⟩
    simp only [probeLoop, if_pos hend]
  | succ k ih =>
    have hcount : s.cursor.probeRowIdx < v.count := by omega
    by_cases hroom : chunkSize ≤ s.out.length
    · refine ⟨s, Arrives.of_succ ⟨0, fun n _ => ?_⟩,
        ⟨⟨rfl, rfl⟩, ⟨R, hpend, rfl⟩, Or.inr hroom, hsound, hlogged⟩⟩
      simp only [probeLoop, if_neg (Nat.not_le.mpr hcount), if_pos hroom]
    -- the cursor inside a chain
    have hwithin : ∃ c1 l, Arrives (fun n => if s.cursor.haveBuildCursor then some s.cursor
          else startProbeRow t v n s.cursor) c1 ∧ SameCall s.cursor c1 ∧
        c1.probeRowIdx = s.cursor.probeRowIdx ∧ Chain t c1.buildRowIdx l ∧
        c1.haveBuildCursor = true ∧
        (∀ g ∈ l, v.accepts s.cursor.probeRowIdx g = true → t.salts g = c1.probeSalt) ∧
        (∀ g ∈ l, v.accepts s.cursor.probeRowIdx g = true → g ∈ candidates s.cursor.probeRowIdx) ∧
        R = rowRest mode s.cursor.probeRowIdx c1.probeMatched
              (l.filter (v.accepts s.cursor.probeRowIdx)) ++
            rowsFrom mode v.count candidates (s.cursor.probeRowIdx + 1) := by
      cases hpend with
      | between hhave =>
        obtain ⟨c1, l, harr, hsame, hrow, hhave1, hmatched, hchain, hsalt, hfilter⟩ :=
          startProbeRow_arrives hreach hcount
        refine ⟨c1, l, ?_, hsame, hrow, hchain, hhave1, hsalt, fun g hg hacc => ?_, ?_⟩
        · simpa only [hhave, Bool.false_eq_true, if_false] using harr
        · rw [← hfilter]
          exact List.mem_filter.mpr ⟨hg, hacc⟩
        · rw [hfilter, hmatched]
          exact rowsFrom_of_lt hcount
      | @within hhave _ l hchain hsalt hcand =>
        refine ⟨s.cursor, l, ?_, ⟨rfl, rfl⟩, rfl, hchain, hhave, hsalt, hcand, rfl⟩
        simpa only [hhave, if_true] using Arrives.pure s.cursor
    obtain ⟨c1, l, harr1, hsame1, hrow1, hchain, hhave1, hsalt, hcand, rfl⟩ := hwithin
    have hbatch : ([] : List JoinedRow) = [] ∨ mode.pairs = true ∧ c1.probeMatched = true := Or.inl rfl
    obtain ⟨w, harrw, hw⟩ := chainLoop_arrives (chunkSize - s.out.length) hrow1 hcount hchain hsalt
      hcand hbatch hsound (fun x hx => by cases hx)
    obtain ⟨l', hchain', hsub', htotal⟩ := hw.rest
    have hwrow : w.cursor.probeRowIdx = s.cursor.probeRowIdx := by
      rw [hw.same]
      exact hrow1
    have hwsame : SameCall s.cursor w.cursor := by
      rw [hw.same]
      exact hsame1
    have hlogged' : Logged (s.out ++ unmatchedRow mode w.cursor w.out) w.matched :=
      (hlogged.mono hw.kept).append hw.logged.unmatchedRow
    have hturn : ∀ {r : ProbeState}, Arrives (fun n =>
        if w.cursor.buildRowIdx = invalidRow then
          if chunkSize ≤ (s.out ++ unmatchedRow mode w.cursor w.out).length then
            some ⟨w.cursor.nextProbeRow, s.out ++ unmatchedRow mode w.cursor w.out, w.matched⟩
          else probeLoop t mode v n
            ⟨w.cursor.nextProbeRow, s.out ++ unmatchedRow mode w.cursor w.out, w.matched⟩
        else if chunkSize ≤ (s.out ++ unmatchedRow mode w.cursor w.out).length then
          some ⟨w.cursor, s.out ++ unmatchedRow mode w.cursor w.out, w.matched⟩
        else probeLoop t mode v n ⟨w.cursor, s.out ++ unmatchedRow mode w.cursor w.out, w.matched⟩) r →
        Arrives (fun n => probeLoop t mode v n s) r := by
      intro r harr
      apply Arrives.of_succ
      obtain ⟨N1, h1⟩ := harr1
      obtain ⟨N2, h2⟩ := harrw
      obtain ⟨N3, h3⟩ := harr
      refine ⟨N1 + N2 + N3, fun n hn => ?_⟩
      have h1' := h1 n (by omega)
      have h2' := h2 n (by omega)
      dsimp only at h1' h2'
      simp only [probeLoop, if_neg (Nat.not_le.mpr hcount), if_neg hroom, h1', h2', Option.bind_some]
      exact h3 n (by omega)
    by_cases hend : w.cursor.buildRowIdx = invalidRow
    · -- the chain has ended, the next probe row follows
      rw [cursorRest, if_pos hend, List.append_nil, List.nil_append] at htotal
      have hnext : Pending t v candidates mode w.cursor.nextProbeRow
          (rowsFrom mode v.count candidates (s.cursor.probeRowIdx + 1)) := by
        rw [← hwrow]
        exact .between rfl
      by_cases hfull : chunkSize ≤ (s.out ++ unmatchedRow mode w.cursor w.out).length
      · refine ⟨⟨w.cursor.nextProbeRow, s.out ++ unmatchedRow mode w.cursor w.out, w.matched⟩,
          hturn ?_, ⟨hwsame, ⟨_, hnext, ?_⟩, Or.inr hfull, hw.sound, hlogged'⟩⟩
        · simp only [if_pos hend, if_pos hfull]
          exact Arrives.pure _
        · rw [htotal, List.append_assoc]
      · obtain ⟨r, harr, hr⟩ := ih
          (s := ⟨w.cursor.nextProbeRow, s.out ++ unmatchedRow mode w.cursor w.out, w.matched⟩)
          hnext hw.sound hlogged' (by
            change v.count - (w.cursor.probeRowIdx + 1) = k
            omega)
        refine ⟨r, hturn ?_, ⟨⟨hr.sameCall.1.trans hwsame.1, hr.sameCall.2.trans hwsame.2⟩, ?_,
          hr.stopped, hr.sound, hr.logged⟩⟩
        · simp only [if_pos hend, if_neg hfull]
          exact harr
        · obtain ⟨R', hpend', hout⟩ := hr.rest
          refine ⟨R', hpend', ?_⟩
          rw [htotal, ← List.append_assoc]
          exact hout
    · -- the output chunk is full in the middle of the chain
      have hplain : unmatchedRow mode w.cursor w.out = w.out := by
        unfold unmatchedRow
        rw [if_neg fun h => hend h.2.1]
      have hfull : chunkSize ≤ (s.out ++ unmatchedRow mode w.cursor w.out).length := by
        rw [hplain, List.length_append]
        have hlen := hw.full hend
        omega
      have hhave : w.cursor.haveBuildCursor = true := by
        rw [hw.same]
        exact hhave1
      have hsalt' : ∀ g ∈ l', v.accepts w.cursor.probeRowIdx g = true →
          t.salts g = w.cursor.probeSalt := by
        rw [hwrow, hw.same]
        exact fun g hg => hsalt g (hsub' hg)
      have hcand' : ∀ g ∈ l', v.accepts w.cursor.probeRowIdx g = true →
          g ∈ candidates w.cursor.probeRowIdx := by
        rw [hwrow]
        exact fun g hg => hcand g (hsub' hg)
      refine ⟨⟨w.cursor, s.out ++ unmatchedRow mode w.cursor w.out, w.matched⟩, hturn ?_,
        ⟨hwsame, ⟨_, .within hhave (by omega) hchain' hsalt' hcand', ?_⟩, Or.inr hfull, hw.sound,
          hlogged'⟩⟩
      · simp only [if_neg hend, if_pos hfull]
        exact Arrives.pure _
      · rw [List.nil_append, cursorRest, if_neg hend, hrow1, hwrow] at htotal
        rw [htotal, hwrow, List.append_assoc, List.append_assoc]

end General

section Fast
variable {t : HashTable} {v : ProbeInput} {candidates : Nat → List UInt32} {nullKey : Nat → Bool}

/-- What the walk of a chain by the fast loop has done when it stops. -/
structure FastWalked (t : HashTable) (v : ProbeInput) (candidates : Nat → List UInt32)
    (s : ProbeState) (total : List JoinedRow) (l : List UInt32) (r : ProbeState) : Prop where
  same : r.cursor = { s.cursor with buildRowIdx := r.cursor.buildRowIdx }
  rest : ∃ l', Chain t r.cursor.buildRowIdx l' ∧ l' ⊆ l ∧
    total = r.out ++ (l'.filter (v.accepts s.cursor.probeRowIdx)).map
      fun g => (s.cursor.probeRowIdx, some g)
  full : r.cursor.buildRowIdx ≠ invalidRow → chunkSize ≤ r.out.length
  sound : Sound v.count candidates r.matched
  logged : Logged r.out r.matched

/-- The walk of a chain by the fast loop. By induction on the chain. -/
theorem fastChainLoop_arrives (hall : ∀ p g, v.filterPasses p g = true) {p : Nat} {s : ProbeState}
    (hp : s.cursor.probeRowIdx = p) (hcount : p < v.count) {l : List UInt32}
    (hchain : Chain t s.cursor.buildRowIdx l)
    (hsalt : ∀ g ∈ l, v.accepts p g = true → t.salts g = s.cursor.probeSalt)
    (hcand : ∀ g ∈ l, v.accepts p g = true → g ∈ candidates p)
    (hsound : Sound v.count candidates s.matched) (hlogged : Logged s.out s.matched) :
    ∃ r, Arrives (fun n => fastChainLoop t v n s) r ∧
      FastWalked t v candidates s
        (s.out ++ (l.filter (v.accepts p)).map fun g => (p, some g)) l r := by
  induction hlen : l.length using Nat.strong_induction_on generalizing s l with
  | _ k ih =>
  subst hp
  by_cases hend : s.cursor.buildRowIdx = invalidRow
  · have hl : l = [] := Chain.idx_eq_invalid (hend ▸ hchain)
    subst hl
    refine ⟨s, Arrives.of_succ ⟨0, fun n _ => ?_⟩,
      ⟨rfl, ⟨[], hchain, fun _ hg => hg, rfl⟩, fun h => absurd hend h, hsound, hlogged⟩⟩
    simp only [fastChainLoop, hend, if_true]
  · obtain ⟨l1, rfl, htail⟩ := hchain.cons_of_ne hend
    obtain ⟨next, l2, hskip, hchain2, hsub, hle, hfilter⟩ :=
      skipOtherSalts_arrives htail fun g hg => hsalt g (List.mem_cons_of_mem _ hg)
    have hsub2 : l2 ⊆ s.cursor.buildRowIdx :: l1 := fun g hg => List.mem_cons_of_mem _ (hsub hg)
    have hlt : l2.length < k := by
      rw [← hlen, List.length_cons]
      omega
    have haccepts : v.accepts s.cursor.probeRowIdx s.cursor.buildRowIdx = v.keyMatches s.cursor.probeRowIdx s.cursor.buildRowIdx := by
      rw [ProbeInput.accepts, hall, Bool.and_true]
    obtain ⟨N, hN⟩ := hskip
    by_cases hacc : v.accepts s.cursor.probeRowIdx s.cursor.buildRowIdx = true
    · have hkey : v.keyMatches s.cursor.probeRowIdx s.cursor.buildRowIdx = true := haccepts ▸ hacc
      have hsound' : Sound v.count candidates (s.matched ++ [(s.cursor.probeRowIdx, s.cursor.buildRowIdx)]) :=
        hsound.push hcount (hcand _ List.mem_cons_self hacc)
      have hlogged' := hlogged.push s.cursor.probeRowIdx s.cursor.buildRowIdx
      have htotal : s.out ++ ((s.cursor.buildRowIdx :: l1).filter (v.accepts s.cursor.probeRowIdx)).map
            (fun g => (s.cursor.probeRowIdx, some g)) =
          s.out ++ [(s.cursor.probeRowIdx, some s.cursor.buildRowIdx)] ++
            (l2.filter (v.accepts s.cursor.probeRowIdx)).map fun g => (s.cursor.probeRowIdx, some g) := by
        rw [List.filter_cons_of_pos hacc, hfilter, List.map_cons, List.append_cons]
      by_cases hroom : chunkSize ≤ (s.out ++ [(s.cursor.probeRowIdx, some s.cursor.buildRowIdx)]).length
      · refine ⟨⟨{ s.cursor with buildRowIdx := next }, s.out ++ [(s.cursor.probeRowIdx, some s.cursor.buildRowIdx)],
          s.matched ++ [(s.cursor.probeRowIdx, s.cursor.buildRowIdx)]⟩, Arrives.of_succ ⟨N, fun n hn => ?_⟩,
          ⟨rfl, ⟨l2, hchain2, hsub2, ?_⟩, fun _ => hroom, hsound', hlogged'⟩⟩
        · simp only [fastChainLoop, hend, if_false, hN n hn, Option.bind_some, hkey, if_true,
            if_pos hroom]
        · exact htotal
      · obtain ⟨r, harr, hw⟩ := ih l2.length hlt
          (s := ⟨{ s.cursor with buildRowIdx := next }, s.out ++ [(s.cursor.probeRowIdx, some s.cursor.buildRowIdx)],
            s.matched ++ [(s.cursor.probeRowIdx, s.cursor.buildRowIdx)]⟩) rfl hchain2
          (fun g hg => hsalt g (hsub2 hg)) (fun g hg => hcand g (hsub2 hg)) hsound' hlogged' rfl
        obtain ⟨M, hM⟩ := harr
        refine ⟨r, Arrives.of_succ ⟨N + M, fun n hn => ?_⟩, ⟨hw.same, ?_, hw.full, hw.sound,
          hw.logged⟩⟩
        · have hM' := hM n (by omega)
          simp only [fastChainLoop, hend, if_false, hN n (by omega), Option.bind_some, hkey,
            if_true, if_neg hroom]
          exact hM'
        · obtain ⟨l', hchain', hsub', htot⟩ := hw.rest
          exact ⟨l', hchain', fun g hg => hsub2 (hsub' hg), htotal.trans htot⟩
    · have hkey : v.keyMatches s.cursor.probeRowIdx s.cursor.buildRowIdx = false := by
        rw [← haccepts]
        simpa using hacc
      obtain ⟨r, harr, hw⟩ := ih l2.length hlt
        (s := { s with cursor := { s.cursor with buildRowIdx := next } }) rfl hchain2
        (fun g hg => hsalt g (hsub2 hg)) (fun g hg => hcand g (hsub2 hg)) hsound hlogged rfl
      obtain ⟨M, hM⟩ := harr
      refine ⟨r, Arrives.of_succ ⟨N + M, fun n hn => ?_⟩, ⟨hw.same, ?_, hw.full, hw.sound,
        hw.logged⟩⟩
      · have hM' := hM n (by omega)
        simp only [fastChainLoop, hend, if_false, hN n (by omega), Option.bind_some, hkey,
          Bool.false_eq_true]
        exact hM'
      · obtain ⟨l', hchain', hsub', htot⟩ := hw.rest
        refine ⟨l', hchain', fun g hg => hsub2 (hsub' hg), ?_⟩
        rw [List.filter_cons_of_neg hacc, ← hfilter]
        exact htot

/-- The candidates of the fast loop: none for a row with the null flag. -/
def fastCandidates (nullKey : Nat → Bool) (candidates : Nat → List UInt32) (p : Nat) :
    List UInt32 :=
  if nullKey p then [] else candidates p

/-- **The fast probe loop** terminates, and keeps what is written and what is
pending together. By induction on the probe rows to come. -/
theorem fastProbeLoop_arrives (hall : ∀ p g, v.filterPasses p g = true)
    (hreach : Reaches t v candidates) {s : ProbeState} {R : List JoinedRow}
    (hpend : Pending t v (fastCandidates nullKey candidates) .inner s.cursor R)
    (hsound : Sound v.count (fastCandidates nullKey candidates) s.matched)
    (hlogged : Logged s.out s.matched) :
    ∃ r, Arrives (fun n => fastProbeLoop t v nullKey n s) r ∧
      Probed v (fastCandidates nullKey candidates)
        (Pending t v (fastCandidates nullKey candidates) .inner) s R r := by
  induction hk : v.count - s.cursor.probeRowIdx generalizing s R with
  | zero =>
    have hend : v.count ≤ s.cursor.probeRowIdx := by omega
    refine ⟨s, Arrives.of_succ ⟨0, fun n _ => ?_⟩,
      ⟨⟨rfl, rfl⟩, ⟨R, hpend, rfl⟩, Or.inl hend, hsound, hlogged⟩⟩
    simp only [fastProbeLoop, if_pos hend]
  | succ k ih =>
    have hcount : s.cursor.probeRowIdx < v.count := by omega
    by_cases hroom : chunkSize ≤ s.out.length
    · refine ⟨s, Arrives.of_succ ⟨0, fun n _ => ?_⟩,
        ⟨⟨rfl, rfl⟩, ⟨R, hpend, rfl⟩, Or.inr hroom, hsound, hlogged⟩⟩
      simp only [fastProbeLoop, if_neg (Nat.not_le.mpr hcount), if_pos hroom]
    by_cases hnull : s.cursor.haveBuildCursor = false ∧ nullKey s.cursor.probeRowIdx = true
    · -- a row with the null flag is passed over
      have hR : R = rowsFrom .inner v.count (fastCandidates nullKey candidates)
          (s.cursor.probeRowIdx + 1) := by
        cases hpend with
        | between hhave =>
          rw [rowsFrom_of_lt hcount, fastCandidates, if_pos hnull.2]
          rfl
        | within hhave _ _ _ _ =>
          rw [hnull.1] at hhave
          cases hhave
      obtain ⟨r, harr, hr⟩ := ih
        (s := { s with cursor := { s.cursor with probeRowIdx := s.cursor.probeRowIdx + 1 } })
        (R := R) (by rw [hR]; exact .between hnull.1) hsound hlogged (by
          change v.count - (s.cursor.probeRowIdx + 1) = k
          omega)
      obtain ⟨N, hN⟩ := harr
      refine ⟨r, Arrives.of_succ ⟨N, fun n hn => ?_⟩,
        ⟨hr.sameCall, hr.rest, hr.stopped, hr.sound, hr.logged⟩⟩
      simp only [fastProbeLoop, if_neg (Nat.not_le.mpr hcount), if_neg hroom, if_pos hnull]
      exact hN n hn
    -- the cursor inside a chain
    have hwithin : ∃ c1 l, Arrives (fun n => if s.cursor.haveBuildCursor then some s.cursor
          else startProbeRow t v n s.cursor) c1 ∧ SameCall s.cursor c1 ∧
        c1.probeRowIdx = s.cursor.probeRowIdx ∧ Chain t c1.buildRowIdx l ∧
        c1.haveBuildCursor = true ∧
        (∀ g ∈ l, v.accepts s.cursor.probeRowIdx g = true → t.salts g = c1.probeSalt) ∧
        (∀ g ∈ l, v.accepts s.cursor.probeRowIdx g = true →
          g ∈ fastCandidates nullKey candidates s.cursor.probeRowIdx) ∧
        R = ((l.filter (v.accepts s.cursor.probeRowIdx)).map
              fun g => (s.cursor.probeRowIdx, some g)) ++
            rowsFrom .inner v.count (fastCandidates nullKey candidates)
              (s.cursor.probeRowIdx + 1) := by
      cases hpend with
      | between hhave =>
        obtain ⟨c1, l, harr, hsame, hrow, hhave1, _, hchain, hsalt, hfilter⟩ :=
          startProbeRow_arrives hreach hcount
        have hflag : fastCandidates nullKey candidates s.cursor.probeRowIdx =
            candidates s.cursor.probeRowIdx := by
          rw [fastCandidates, if_neg fun h => hnull ⟨hhave, h⟩]
        refine ⟨c1, l, ?_, hsame, hrow, hchain, hhave1, hsalt, fun g hg hacc => ?_, ?_⟩
        · simpa only [hhave, Bool.false_eq_true, if_false] using harr
        · rw [hflag, ← hfilter]
          exact List.mem_filter.mpr ⟨hg, hacc⟩
        · rw [hfilter, rowsFrom_of_lt hcount, hflag]
          rfl
      | @within hhave _ l hchain hsalt hcand =>
        refine ⟨s.cursor, l, ?_, ⟨rfl, rfl⟩, rfl, hchain, hhave, hsalt, hcand, rfl⟩
        simpa only [hhave, if_true] using Arrives.pure s.cursor
    obtain ⟨c1, l, harr1, hsame1, hrow1, hchain, hhave1, hsalt, hcand, rfl⟩ := hwithin
    obtain ⟨w, harrw, hw⟩ := fastChainLoop_arrives (s := { s with cursor := c1 }) hall hrow1 hcount
      hchain hsalt hcand hsound hlogged
    obtain ⟨l', hchain', hsub', htotal⟩ := hw.rest
    dsimp only at htotal
    rw [hrow1] at htotal
    have hwrow : w.cursor.probeRowIdx = s.cursor.probeRowIdx := by
      rw [hw.same]
      exact hrow1
    have hwsame : SameCall s.cursor w.cursor := by
      rw [hw.same]
      exact hsame1
    have hturn : ∀ {r : ProbeState}, Arrives (fun n =>
        if w.cursor.buildRowIdx = invalidRow then
          fastProbeLoop t v nullKey n { w with cursor := { w.cursor with
            haveBuildCursor := false
            probeRowIdx := w.cursor.probeRowIdx + 1 } }
        else if chunkSize ≤ w.out.length then some w
        else fastProbeLoop t v nullKey n w) r →
        Arrives (fun n => fastProbeLoop t v nullKey n s) r := by
      intro r harr
      apply Arrives.of_succ
      obtain ⟨N1, h1⟩ := harr1
      obtain ⟨N2, h2⟩ := harrw
      obtain ⟨N3, h3⟩ := harr
      refine ⟨N1 + N2 + N3, fun n hn => ?_⟩
      have h1' := h1 n (by omega)
      have h2' := h2 n (by omega)
      dsimp only at h1' h2'
      simp only [fastProbeLoop, if_neg (Nat.not_le.mpr hcount), if_neg hroom, if_neg hnull, h1', h2',
        Option.bind_some]
      exact h3 n (by omega)
    by_cases hend : w.cursor.buildRowIdx = invalidRow
    · -- the chain has ended, the next probe row follows
      have hl' : l' = [] := Chain.idx_eq_invalid (hend ▸ hchain')
      rw [hl', List.filter_nil, List.map_nil, List.append_nil] at htotal
      have hnext : Pending t v (fastCandidates nullKey candidates) .inner
          { w.cursor with haveBuildCursor := false, probeRowIdx := w.cursor.probeRowIdx + 1 }
          (rowsFrom .inner v.count (fastCandidates nullKey candidates)
            (s.cursor.probeRowIdx + 1)) := by
        rw [← hwrow]
        exact .between rfl
      obtain ⟨r, harr, hr⟩ := ih (s := { w with cursor := { w.cursor with
          haveBuildCursor := false
          probeRowIdx := w.cursor.probeRowIdx + 1 } }) hnext hw.sound hw.logged (by
        change v.count - (w.cursor.probeRowIdx + 1) = k
        omega)
      refine ⟨r, hturn ?_, ⟨⟨hr.sameCall.1.trans hwsame.1, hr.sameCall.2.trans hwsame.2⟩, ?_,
        hr.stopped, hr.sound, hr.logged⟩⟩
      · simp only [if_pos hend]
        exact harr
      · obtain ⟨R', hpend', hout⟩ := hr.rest
        refine ⟨R', hpend', ?_⟩
        rw [← List.append_assoc, htotal]
        exact hout
    · -- the output chunk is full in the middle of the chain
      have hfull := hw.full hend
      have hhave : w.cursor.haveBuildCursor = true := by
        rw [hw.same]
        exact hhave1
      have hsalt' : ∀ g ∈ l', v.accepts w.cursor.probeRowIdx g = true →
          t.salts g = w.cursor.probeSalt := by
        rw [hwrow, hw.same]
        exact fun g hg => hsalt g (hsub' hg)
      have hcand' : ∀ g ∈ l', v.accepts w.cursor.probeRowIdx g = true →
          g ∈ fastCandidates nullKey candidates w.cursor.probeRowIdx := by
        rw [hwrow]
        exact fun g hg => hcand g (hsub' hg)
      refine ⟨w, hturn ?_, ⟨hwsame, ⟨_, .within hhave (by omega) hchain' hsalt' hcand', ?_⟩,
        Or.inr hfull, hw.sound, hw.logged⟩⟩
      · simp only [if_neg hend, if_pos hfull]
        exact Arrives.pure _
      · rw [← List.append_assoc, htotal, hwrow, List.append_assoc]
        rfl

end Fast

/-! ## Calls and resumptions -/

section Calls
variable {t : HashTable} {v : ProbeInput} {candidates : Nat → List UInt32}
  {mode : HashJoinMatchMode}

/-- Between two calls of `Execute`: a new chunk, or a chunk with more output. -/
inductive Awaiting (t : HashTable) (v : ProbeInput) (candidates : Nat → List UInt32)
    (mode : HashJoinMatchMode) (c : HashJoinProbeCursor) : List JoinedRow → Prop
  | start (hactive : c.activeProbe = false) (hdrained : c.currentInputDrained = false) :
      Awaiting t v candidates mode c (rowsFrom mode v.count candidates 0)
  | inside (hactive : c.activeProbe = true) (hdrained : c.currentInputDrained = false)
      {R : List JoinedRow} (hpend : Pending t v candidates mode c R) :
      Awaiting t v candidates mode c R

/-- The cursor waits for a new chunk. -/
def HashJoinProbeCursor.Idle (c : HashJoinProbeCursor) : Prop :=
  c.activeProbe = false ∧ c.currentInputDrained = false

/-- What a call has done: it wrote all there was, or a full chunk of it. -/
structure Called (t : HashTable) (v : ProbeInput) (candidates : Nat → List UInt32)
    (mode : HashJoinMatchMode) (R : List JoinedRow) (r : ProbeState) : Prop where
  result : (r.cursor.activeProbe = false ∧ r.cursor.currentInputDrained = (!r.out.isEmpty) ∧
      R = r.out) ∨
    r.out ≠ [] ∧ ∃ R', Awaiting t v candidates mode r.cursor R' ∧ R = r.out ++ R'
  sound : Sound v.count candidates r.matched
  logged : Logged r.out r.matched

/-- A call around a loop that keeps what is written and pending together. -/
theorem call_arrives (loop : Nat → ProbeState → Option ProbeState)
    (hloop : ∀ {s : ProbeState} {R : List JoinedRow}, Pending t v candidates mode s.cursor R →
      Sound v.count candidates s.matched → Logged s.out s.matched →
      ∃ r, Arrives (fun n => loop n s) r ∧ Probed v candidates (Pending t v candidates mode) s R r)
    {c : HashJoinProbeCursor} {R : List JoinedRow} (hc : Awaiting t v candidates mode c R) :
    ∃ r, Arrives (fun n => (loop n ⟨c.activate, [], []⟩).map (ProbeState.leave v.count)) r ∧
      Called t v candidates mode R r := by
  have hstart : Pending t v candidates mode c.activate R ∧ c.activate.activeProbe = true ∧
      c.activate.currentInputDrained = false := by
    unfold HashJoinProbeCursor.activate
    cases hc with
    | start hactive hdrained =>
      simp only [hactive, Bool.false_eq_true, if_false]
      exact ⟨.between rfl, trivial, hdrained⟩
    | inside hactive hdrained hpend =>
      simp only [hactive, if_true]
      exact ⟨hpend, trivial, hdrained⟩
  obtain ⟨hpend, hactive, hdrained⟩ := hstart
  obtain ⟨r, harr, hr⟩ := hloop (s := ⟨c.activate, [], []⟩) hpend (fun x hx => by cases hx)
    (fun x hx => by cases hx)
  obtain ⟨R', hpend', hout⟩ := hr.rest
  rw [List.nil_append] at hout
  refine ⟨r.leave v.count, ?_, ?_⟩
  · obtain ⟨N, hN⟩ := harr
    refine ⟨N, fun n hn => ?_⟩
    have hN' := hN n hn
    dsimp only at hN'
    simp only [hN', Option.map_some]
  · unfold ProbeState.leave
    split
    · rename_i hend
      rw [hpend'.eq_nil hend, List.append_nil] at hout
      exact ⟨Or.inl ⟨rfl, rfl, hout⟩, hr.sound, hr.logged⟩
    · rename_i hmore
      have hfull := hr.stopped.resolve_left hmore
      have hne : r.out ≠ [] := by
        intro hnil
        rw [hnil] at hfull
        cases hfull
      exact ⟨Or.inr ⟨hne, R', .inside (hr.sameCall.1.trans hactive)
        (hr.sameCall.2.trans hdrained) hpend', hout⟩, hr.sound, hr.logged⟩

/-- What all calls for one chunk have done. -/
structure Resumed (v : ProbeInput) (candidates : Nat → List UInt32) (R : List JoinedRow)
    (r : ProbeState) : Prop where
  out : r.out = R
  idle : r.cursor.Idle
  sound : Sound v.count candidates r.matched
  logged : Logged r.out r.matched

theorem Sound.append {count : Nat} {matched matched' : List (Nat × UInt32)}
    (h : Sound count candidates matched) (h' : Sound count candidates matched') :
    Sound count candidates (matched ++ matched') := by
  intro x hx
  rcases List.mem_append.mp hx with hx | hx
  · exact h x hx
  · exact h' x hx

/-- **Resuming a probe until it asks for more input** terminates and writes all
that is to come. By induction on how much that is. -/
theorem resume_arrives (t : HashTable) {probe : Nat → HashJoinProbeCursor → Option ProbeState}
    (hprobe : ∀ {c : HashJoinProbeCursor} {R : List JoinedRow}, Awaiting t v candidates mode c R →
      ∃ r, Arrives (fun n => probe n c) r ∧ Called t v candidates mode R r)
    {c : HashJoinProbeCursor} {R : List JoinedRow} (hc : Awaiting t v candidates mode c R) :
    ∃ r, Arrives (fun n => resume (afterDrained probe) n c) r ∧ Resumed v candidates R r := by
  induction hlen : R.length using Nat.strong_induction_on generalizing c R with
  | _ k ih =>
  have hdrained : c.currentInputDrained = false := by
    cases hc with
    | start _ hdrained => exact hdrained
    | inside _ hdrained _ => exact hdrained
  obtain ⟨r, ⟨N, hN⟩, hr⟩ := hprobe hc
  have hstep : ∀ n, N ≤ n → afterDrained probe n c = some r := by
    intro n hn
    simp only [afterDrained, hdrained, Bool.false_eq_true, if_false]
    exact hN n hn
  rcases hr.result with ⟨hidle, hmark, rfl⟩ | ⟨hne, R', hc', rfl⟩
  · by_cases hnil : r.out = []
    · refine ⟨r, Arrives.of_succ ⟨N, fun n hn => ?_⟩, ⟨rfl, ⟨hidle, ?_⟩, hr.sound, hr.logged⟩⟩
      · simp only [resume, hstep n hn, Option.bind_some, hnil, List.isEmpty_nil, if_true]
      · rw [hmark, hnil]
        rfl
    · -- the next call only takes the mark back
      have hempty : r.out.isEmpty = false := by simpa using hnil
      have hmark' : r.cursor.currentInputDrained = true := by rw [hmark, hempty]; rfl
      have hsecond : ∀ n, resume (afterDrained probe) (n + 1) r.cursor =
          some ⟨{ r.cursor with currentInputDrained := false }, [], []⟩ := by
        intro n
        simp only [resume, afterDrained, hmark', if_true, Option.bind_some, List.isEmpty_nil]
      refine ⟨⟨{ r.cursor with currentInputDrained := false }, r.out ++ [], r.matched ++ []⟩,
        Arrives.of_succ ⟨N + 1, fun n hn => ?_⟩, ⟨List.append_nil _, ⟨hidle, rfl⟩, ?_, ?_⟩⟩
      · obtain ⟨n, rfl⟩ := Nat.exists_eq_add_of_le' (show 1 ≤ n by omega)
        have hfirst := hstep (n + 1) (by omega)
        have hnext := hsecond n
        simp only [resume] at hnext ⊢
        rw [hfirst, Option.bind_some, hempty]
        simp only [Bool.false_eq_true, if_false, hnext, Option.map_some]
      · dsimp only
        rw [List.append_nil]
        exact hr.sound
      · dsimp only
        rw [List.append_nil, List.append_nil]
        exact hr.logged
  · have hlt : R'.length < k := by
      have hpos := List.length_pos_of_ne_nil hne
      rw [← hlen, List.length_append]
      omega
    obtain ⟨r', ⟨M, hM⟩, hr'⟩ := ih R'.length hlt hc' rfl
    have hempty : r.out.isEmpty = false := by simpa using hne
    refine ⟨⟨r'.cursor, r.out ++ r'.out, r.matched ++ r'.matched⟩,
      Arrives.of_succ ⟨N + M, fun n hn => ?_⟩,
      ⟨by rw [hr'.out], hr'.idle, hr.sound.append hr'.sound, ?_⟩⟩
    · have hM' := hM n (by omega)
      dsimp only at hM'
      simp only [resume, hstep n (by omega), Option.bind_some, hempty, Bool.false_eq_true, if_false,
        hM', Option.map_some]
    · exact (hr.logged.mono (List.subset_append_left _ _)).append
        (hr'.logged.mono (List.subset_append_right _ _))

end Calls

end HashJoinProbe
end PgYaap
