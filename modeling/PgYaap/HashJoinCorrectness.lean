import Mathlib
import PgYaap.HashJoinReference
import PgYaap.InterleavedRows

/-! # What a hash join computes

The output of the resumed probe as a multiset, against the nested-loop join; the
pairs it takes for a match, against the NULL rule of SQL equality; and the output
of the fast loop, row for row, against the general loop. Each comparison comes
with the exact condition under which it holds. -/
namespace PgYaap
namespace HashJoinProbe
open HashJoinCombine RelationalJoin

/-! ## The join as a multiset -/

section Join
variable (desc : HashJoinDesc) (b : BuildSide desc.buildKeyLayout desc.buildLayout)

/-- All probe rows, by chunk and position, from chunk number `k` on. -/
def probeRows : Nat → List DataChunk → List (Nat × Nat)
  | _, [] => []
  | k, chunk :: chunks => (List.range chunk.count).map (fun p => (k, p)) ++ probeRows (k + 1) chunks

/-- An output row as a row of the join: a semi or anti join has no build row. -/
def joinedRow (mode : HashJoinMatchMode) (k : Nat) (row : JoinedRow) : (Nat × Nat) × Option Nat :=
  ((k, row.1), if mode.pairs then row.2.map UInt32.toNat else none)

/-- The output of all chunks, from chunk number `k` on. -/
def joinedRows (mode : HashJoinMatchMode) : Nat → List ProbeState → List ((Nat × Nat) × Option Nat)
  | _, [] => []
  | k, r :: rs => r.out.map (joinedRow mode k) ++ joinedRows mode (k + 1) rs

/-- A match relation between probe rows by chunk and position, and build rows by
position, from one between rows. -/
def BuildSide.testAt {kl bl : List TdcColumnDesc} (b : BuildSide kl bl) (chunks : List DataChunk)
    (test : DataChunk → Nat → ChunkRow → Bool) (tag : Nat × Nat) (g : Nat) : Bool :=
  match chunks[tag.1]? with
  | none => false
  | some chunk => b.test (test chunk tag.2) g

/-- **The reference**: the nested-loop join of the probe rows and the build rows
under SQL equality and the residual filter. -/
def referenceJoin (chunks : List DataChunk) : List ((Nat × Nat) × Option Nat) :=
  join desc.joinMode (b.testAt chunks (sqlMatch desc)) (probeRows 0 chunks)
    (List.range b.rows.length)

/-- When the hash join is the SQL join. An empty build side only goes with a left
or anti join that has no probe rows. And wherever the mode looks at a pair, the
comparison of stored values agrees with SQL equality: pair by pair for an inner or
left join, in whether a probe row has a match at all for a semi or anti join. -/
def JoinsAsSql (chunks : List DataChunk) : Prop :=
  (b.rows = [] → desc.joinMode = .left ∨ desc.joinMode = .anti →
    ∀ chunk ∈ chunks, chunk.count = 0) ∧
  ∀ chunk ∈ chunks, ∀ p, p < chunk.count →
    if desc.joinMode.pairs then
      ∀ row ∈ b.rows, probeMatch desc chunk p row = sqlMatch desc chunk p row
    else
      (∃ row ∈ b.rows, probeMatch desc chunk p row = true) ↔
        ∃ row ∈ b.rows, sqlMatch desc chunk p row = true

variable {desc b}

theorem mem_probeRows {k : Nat} {chunks : List DataChunk} {tag : Nat × Nat} :
    tag ∈ probeRows k chunks ↔
      ∃ i chunk, chunks[i]? = some chunk ∧ tag.1 = k + i ∧ tag.2 < chunk.count := by
  induction chunks generalizing k with
  | nil => simp [probeRows]
  | cons chunk chunks ih =>
    rw [probeRows, List.mem_append, ih, List.mem_map]
    constructor
    · rintro (⟨p, hp, rfl⟩ | ⟨i, c, hi, hk, hp⟩)
      · exact ⟨0, chunk, rfl, rfl, List.mem_range.mp hp⟩
      · exact ⟨i + 1, c, hi, by omega, hp⟩
    · rintro ⟨i, c, hi, hk, hp⟩
      cases i with
      | zero =>
        rw [List.getElem?_cons_zero, Option.some.injEq] at hi
        subst hi
        exact Or.inl ⟨tag.2, List.mem_range.mpr hp, Prod.ext hk.symm rfl⟩
      | succ i => exact Or.inr ⟨i, c, hi, by omega, hp⟩

theorem probeRows_nodup (k : Nat) (chunks : List DataChunk) : (probeRows k chunks).Nodup := by
  induction chunks generalizing k with
  | nil => exact List.nodup_nil
  | cons chunk chunks ih =>
    have hinj : Function.Injective fun p : Nat => (k, p) := fun p q h => (Prod.mk.inj h).2
    refine List.Nodup.append (List.nodup_range.map hinj) (ih (k + 1)) ?_
    intro tag h h'
    obtain ⟨p, _, rfl⟩ := List.mem_map.mp h
    obtain ⟨i, _, _, hk, _⟩ := mem_probeRows.mp h'
    dsimp only at hk
    omega

/-- What a probe row writes is what its matches contribute to the join. -/
theorem map_rowRest (mode : HashJoinMatchMode) (k p : Nat) (m : List UInt32) :
    (rowRest mode p false m).map (joinedRow mode k) = joinRow mode (k, p) (m.map UInt32.toNat) := by
  cases mode with
  | inner => simp [rowRest, joinRow, joinedRow, JoinMode.pairs]
  | left => cases m <;> simp [rowRest, joinRow, joinedRow, JoinMode.pairs]
  | semi => cases m <;> simp [rowRest, joinRow, joinedRow, JoinMode.pairs]
  | anti => cases m <;> simp [rowRest, joinRow, joinedRow, JoinMode.pairs]

theorem map_rowsFrom (mode : HashJoinMatchMode) (k count : Nat) (m : Nat → List UInt32) :
    (rowsFrom mode count m 0).map (joinedRow mode k) =
      (List.range count).flatMap fun p => joinRow mode (k, p) ((m p).map UInt32.toNat) := by
  rw [rowsFrom, Nat.sub_zero, List.map_flatMap, List.range_eq_range']
  simp only [map_rowRest]

theorem sameMatches_of_perm {mode : JoinMode} {l l' : List Nat} (h : l.Perm l') :
    SameMatches mode l l' := by
  unfold SameMatches
  split
  · exact h
  · constructor
    · rintro rfl
      exact h.nil_eq.symm
    · rintro rfl
      exact h.eq_nil

/-- The output of one chunk. -/
theorem ChunkProbed.perm {chunk : DataChunk} {r : ProbeState} {m : Nat → List UInt32}
    (h : ChunkProbed desc b chunk r m) (k : Nat) :
    (r.out.map (joinedRow desc.joinMode k)).Perm
      (((List.range chunk.count).map fun p => (k, p)).flatMap fun tag =>
        joinRow desc.joinMode tag
          ((List.range b.rows.length).filter (b.test (probeMatch desc chunk tag.2)))) := by
  rw [h.out, map_rowsFrom, List.flatMap_map]
  refine List.Perm.flatMap_left _ fun p _ => joinRow_perm_iff.mpr (sameMatches_of_perm ?_)
  exact candidates_perm (h.nodup p) (h.mem p) (fun g hg => BuildSide.test_lt hg) b.rows_fit

/-- The output of all chunks, over a build side with rows. -/
theorem joinedRows_perm (hrows : b.rows ≠ []) {chunks : List DataChunk} {rs : List ProbeState}
    (h : List.Forall₂ (ChunkResult desc b) chunks rs) (k : Nat) {q : Nat × Nat → Nat → Bool}
    (hq : ∀ i chunk, chunks[i]? = some chunk → ∀ p,
      q (k + i, p) = b.test (probeMatch desc chunk p)) :
    (joinedRows desc.joinMode k rs).Perm ((probeRows k chunks).flatMap fun tag =>
      joinRow desc.joinMode tag ((List.range b.rows.length).filter (q tag))) := by
  induction h generalizing k with
  | nil => exact List.Perm.refl _
  | @cons chunk r chunks rs hr _ ih =>
    obtain ⟨m, hm⟩ := hr.2 hrows
    rw [joinedRows, probeRows, List.flatMap_append]
    refine List.Perm.append ?_ (ih (k + 1) fun i c hi p => ?_)
    · have hchunk := hm.perm k
      have hsame : (((List.range chunk.count).map fun p => (k, p)).flatMap fun tag =>
            joinRow desc.joinMode tag ((List.range b.rows.length).filter (q tag))) =
          ((List.range chunk.count).map fun p => (k, p)).flatMap fun tag =>
            joinRow desc.joinMode tag
              ((List.range b.rows.length).filter (b.test (probeMatch desc chunk tag.2))) := by
        rw [List.flatMap_map, List.flatMap_map]
        have hfun : ∀ p, q (k, p) = b.test (probeMatch desc chunk p) := hq 0 chunk rfl
        simp only [hfun]
      rw [hsame]
      exact hchunk
    · have hnext := hq (i + 1) c hi p
      rwa [show k + (i + 1) = k + 1 + i by omega] at hnext

/-- Without build rows nothing is written. -/
theorem joinedRows_empty (hrows : b.rows = []) {chunks : List DataChunk} {rs : List ProbeState}
    (h : List.Forall₂ (ChunkResult desc b) chunks rs) (mode : HashJoinMatchMode) (k : Nat) :
    joinedRows mode k rs = [] := by
  induction h generalizing k with
  | nil => rfl
  | cons hr _ ih => rw [joinedRows, (hr.1 hrows).1, ih (k + 1)]; rfl

/-- Two tests find the same rows exactly when they agree on every row. -/
theorem filter_test_perm_iff {kl bl : List TdcColumnDesc} {b : BuildSide kl bl}
    {p p' : ChunkRow → Bool} :
    ((List.range b.rows.length).filter (b.test p)).Perm
        ((List.range b.rows.length).filter (b.test p')) ↔ ∀ row ∈ b.rows, p row = p' row := by
  rw [List.perm_ext_iff_of_nodup (List.nodup_range.filter _) (List.nodup_range.filter _)]
  have htest : ∀ (f : ChunkRow → Bool) g row, b.rows[g]? = some row → b.test f g = f row := by
    intro f g row hg
    rw [BuildSide.test, hg]
  constructor
  · intro h row hrow
    obtain ⟨g, hg⟩ := List.mem_iff_getElem?.mp hrow
    have hlt : g < b.rows.length := (List.getElem?_eq_some_iff.mp hg).1
    have hmem := h g
    rw [List.mem_filter, List.mem_filter, List.mem_range, htest p g row hg, htest p' g row hg] at hmem
    rw [Bool.eq_iff_iff]
    exact ⟨fun hp => (hmem.mp ⟨hlt, hp⟩).2, fun hp => (hmem.mpr ⟨hlt, hp⟩).2⟩
  · intro h g
    rw [List.mem_filter, List.mem_filter, List.mem_range]
    cases hg : b.rows[g]? with
    | none => simp [BuildSide.test, hg]
    | some row => rw [htest p g row hg, htest p' g row hg, h row (List.mem_of_getElem? hg)]

theorem filter_test_eq_nil_iff {kl bl : List TdcColumnDesc} {b : BuildSide kl bl}
    {p : ChunkRow → Bool} :
    (List.range b.rows.length).filter (b.test p) = [] ↔ ¬ ∃ row ∈ b.rows, p row = true := by
  rw [List.filter_eq_nil_iff]
  constructor
  · rintro h ⟨row, hrow, hp⟩
    obtain ⟨g, hg⟩ := List.mem_iff_getElem?.mp hrow
    refine h g (List.mem_range.mpr (List.getElem?_eq_some_iff.mp hg).1) ?_
    rw [BuildSide.test, hg]
    exact hp
  · intro h g _ ht
    cases hg : b.rows[g]? with
    | none =>
      rw [BuildSide.test, hg] at ht
      cases ht
    | some row =>
      rw [BuildSide.test, hg] at ht
      exact h ⟨row, List.mem_of_getElem? hg, ht⟩

/-- Without build rows, only the probe rows of a left or anti join are missing. -/
theorem referenceJoin_empty_iff (hrows : b.rows = []) (chunks : List DataChunk) :
    ([] : List ((Nat × Nat) × Option Nat)).Perm (referenceJoin desc b chunks) ↔
      JoinsAsSql desc b chunks := by
  have hpairs : ∀ (p q : ChunkRow → Bool), if desc.joinMode.pairs then ∀ row ∈ b.rows, p row = q row
      else (∃ row ∈ b.rows, p row = true) ↔ ∃ row ∈ b.rows, q row = true := by
    intro p q
    rw [hrows]
    split <;> simp
  have hjoins : JoinsAsSql desc b chunks ↔
      (desc.joinMode = .left ∨ desc.joinMode = .anti → ∀ chunk ∈ chunks, chunk.count = 0) :=
    ⟨fun h => h.1 hrows, fun h => ⟨fun _ => h, fun _ _ p _ => hpairs _ _⟩⟩
  have hrow : ∀ tag : Nat × Nat, joinRow desc.joinMode tag ([] : List Nat) = [] ↔
      ¬ (desc.joinMode = .left ∨ desc.joinMode = .anti) := by
    intro tag
    cases desc.joinMode <;> simp [joinRow]
  rw [hjoins, List.nil_perm, referenceJoin, join, hrows, List.flatMap_eq_nil_iff]
  simp only [List.length_nil, List.range_zero, List.filter_nil, hrow]
  constructor
  · intro h hmode chunk hchunk
    obtain ⟨i, hi⟩ := List.mem_iff_getElem?.mp hchunk
    by_contra hcount
    exact h (0 + i, 0) (mem_probeRows.mpr ⟨i, chunk, hi, rfl, Nat.pos_of_ne_zero hcount⟩) hmode
  · intro h tag htag hmode
    obtain ⟨i, chunk, hi, _, hlt⟩ := mem_probeRows.mp htag
    rw [h hmode chunk (List.mem_of_getElem? hi)] at hlt
    exact absurd hlt (Nat.not_lt_zero _)

/-- With build rows, the join is decided pair by pair or row by row. -/
theorem joins_iff (hrows : b.rows ≠ []) (chunks : List DataChunk) :
    (∀ tag ∈ probeRows 0 chunks, SameMatches desc.joinMode
        ((List.range b.rows.length).filter (b.testAt chunks (probeMatch desc) tag))
        ((List.range b.rows.length).filter (b.testAt chunks (sqlMatch desc) tag))) ↔
      JoinsAsSql desc b chunks := by
  have htag : ∀ (f : DataChunk → Nat → ChunkRow → Bool) i chunk p, chunks[i]? = some chunk →
      b.testAt chunks f (0 + i, p) = b.test (f chunk p) := by
    intro f i chunk p hi
    funext g
    rw [BuildSide.testAt, Nat.zero_add, hi]
  have hsame : ∀ (f f' : ChunkRow → Bool), SameMatches desc.joinMode
      ((List.range b.rows.length).filter (b.test f)) ((List.range b.rows.length).filter (b.test f')) ↔
      if desc.joinMode.pairs then ∀ row ∈ b.rows, f row = f' row
      else (∃ row ∈ b.rows, f row = true) ↔ ∃ row ∈ b.rows, f' row = true := by
    intro f f'
    unfold SameMatches
    split
    · exact filter_test_perm_iff
    · rw [filter_test_eq_nil_iff, filter_test_eq_nil_iff, not_iff_not]
  constructor
  · intro h
    refine ⟨fun hnil => absurd hnil hrows, fun chunk hchunk p hp => ?_⟩
    obtain ⟨i, hi⟩ := List.mem_iff_getElem?.mp hchunk
    have hrow := h (0 + i, p) (mem_probeRows.mpr ⟨i, chunk, hi, rfl, hp⟩)
    rw [htag _ i chunk p hi, htag _ i chunk p hi] at hrow
    exact (hsame _ _).mp hrow
  · intro h tag hmem
    obtain ⟨i, chunk, hi, hk, hp⟩ := mem_probeRows.mp hmem
    have heq : tag = (0 + i, tag.2) := Prod.ext hk rfl
    rw [heq, htag _ i chunk tag.2 hi, htag _ i chunk tag.2 hi]
    exact (hsame _ _).mpr (h.2 chunk (List.mem_of_getElem? hi) tag.2 hp)

/-- A join on one INT32 column in slot 0 of both sides, which is also its output. -/
def int32Join (mode : HashJoinMatchMode) : HashJoinDesc where
  joinMode := mode
  probeKeyLayout := [⟨.int32, 0⟩]
  buildKeyLayout := [⟨.int32, 0⟩]
  buildLayout := [⟨.int32, 0⟩]
  outputColumns := [⟨.left, 0, .int32Int4, 0⟩]
  joinFilter := none
  buildRowsSharedLocal := false

/-- A chunk with one row: an INT32 value in slot 0, and its null flag. -/
def int32Chunk (value : Int32) (isNull : UInt8) : DataChunk where
  count := 1
  int32 := ⟨fun _ _ => value, fun _ _ => 0, fun _ => ⟨false, 0⟩⟩
  int64 := ⟨fun _ _ => 0, fun _ _ => 0, fun _ => ⟨false, 0⟩⟩
  double := ⟨fun _ _ => 0, fun _ _ => 0, fun _ => ⟨false, 0⟩⟩
  string := ⟨fun _ _ => [], fun _ _ => 0, fun _ => ⟨false, 0⟩⟩
  nulls := fun _ _ => isNull

/-- A build side without rows. -/
def emptyBuild : BuildSide [⟨.int32, 0⟩] [⟨.int32, 0⟩] := ⟨[], none, rfl⟩

end Join

/-! ## NULL keys -/

section Nulls
variable {desc : HashJoinDesc} {b : BuildSide desc.buildKeyLayout desc.buildLayout}

/-- No pair taken for a match has a NULL in a key column, on either side. -/
def NullsNeverMatch (desc : HashJoinDesc) (b : BuildSide desc.buildKeyLayout desc.buildLayout)
    (chunks : List DataChunk) (rs : List ProbeState) : Prop :=
  ∀ (k : Nat) chunk r, chunks[k]? = some chunk → rs[k]? = some r → ∀ x ∈ r.matched,
    ∀ row, b.rows[x.2.toNat]? = some row →
      chunk.hasNull desc.probeKeyLayout x.1 = false ∧
        row.chunk.hasNull desc.buildKeyLayout row.rowIdx = false

/-- No row with a NULL in a key column has stored key values that equal those of a
row of the other side under a passing filter. -/
def NullKeysDiffer (desc : HashJoinDesc) (b : BuildSide desc.buildKeyLayout desc.buildLayout)
    (chunks : List DataChunk) : Prop :=
  ∀ chunk ∈ chunks, ∀ p, p < chunk.count → ∀ row ∈ b.rows, storedMatch desc chunk p row = true →
    chunk.hasNull desc.probeKeyLayout p = false ∧
      row.chunk.hasNull desc.buildKeyLayout row.rowIdx = false

/-- What is taken for a match is a stored match. -/
theorem storedMatch_of_matched {chunk : DataChunk} {r : ProbeState}
    (h : ChunkResult desc b chunk r) {x : Nat × UInt32} (hx : x ∈ r.matched) :
    x.1 < chunk.count ∧ ∃ row ∈ b.rows, b.rows[x.2.toNat]? = some row ∧
      storedMatch desc chunk x.1 row = true := by
  by_cases hrows : b.rows = []
  · rw [(h.1 hrows).2] at hx
    cases hx
  · obtain ⟨m, hm⟩ := h.2 hrows
    obtain ⟨hp, hg⟩ := hm.sound x hx
    refine ⟨hp, ?_⟩
    have ht := (hm.mem x.1 x.2).mp hg
    rw [BuildSide.test] at ht
    cases hrow : b.rows[x.2.toNat]? with
    | none =>
      rw [hrow] at ht
      cases ht
    | some row =>
      rw [hrow] at ht
      have hs : storedMatch desc chunk x.1 row = true := by
        simp only [probeMatch, Bool.and_eq_true] at ht
        exact ht.1
      exact ⟨row, List.mem_of_getElem? hrow, rfl, hs⟩

/-- A left join takes every stored match for a match. -/
theorem matched_of_storedMatch (hmode : desc.joinMode = .left) {chunk : DataChunk} {r : ProbeState}
    (h : ChunkResult desc b chunk r) {p : Nat} (hp : p < chunk.count) {row : ChunkRow} {g : Nat}
    (hg : b.rows[g]? = some row) (hs : storedMatch desc chunk p row = true) :
    ∃ x ∈ r.matched, x.1 = p ∧ x.2.toNat = g := by
  have hrows : b.rows ≠ [] := List.ne_nil_of_mem (List.mem_of_getElem? hg)
  obtain ⟨m, hm⟩ := h.2 hrows
  have hslow : usesFastProbe desc = false := by
    simp [usesFastProbe, fastInnerEnabled, hmode]
  have hlt : g < b.rows.length := (List.getElem?_eq_some_iff.mp hg).1
  have hfit := b.rows_fit
  have hof : (UInt32.ofNat g).toNat = g := by
    rw [UInt32.toNat_ofNat', Nat.mod_eq_of_lt (by omega)]
  have hmem : UInt32.ofNat g ∈ m p := by
    rw [hm.mem, hof, BuildSide.test, hg]
    simp only [probeMatch, hs, hslow, Bool.false_and, Bool.not_false, Bool.and_self]
  refine ⟨(p, UInt32.ofNat g), hm.logged (p, some (UInt32.ofNat g)) ?_ _ rfl, rfl, hof⟩
  rw [hm.out, rowsFrom, List.mem_flatMap]
  refine ⟨p, by rw [Nat.sub_zero, ← List.range_eq_range']; exact List.mem_range.mpr hp, ?_⟩
  have hne : (m p).isEmpty = false := by
    simpa using List.ne_nil_of_mem hmem
  rw [hmode]
  simp only [rowRest, hne, Bool.false_and, Bool.false_eq_true, if_false]
  exact List.mem_map.mpr ⟨_, hmem, rfl⟩

/-- A left join in which nothing with a NULL key is taken for a match. -/
theorem NullsNeverMatch.differ {chunks : List DataChunk} {rs : List ProbeState}
    (harr : Arrives (fun fuel =>
      probeChunks { desc with joinMode := .left } b.payload fuel chunks .fresh) rs)
    (h : NullsNeverMatch desc b chunks rs) : NullKeysDiffer desc b chunks := by
  intro chunk hchunk p hp row hrow hs
  obtain ⟨rs', harr', hrs⟩ := probeChunks_fresh { desc with joinMode := .left } b chunks
  obtain rfl := harr.unique harr'
  obtain ⟨k, hk⟩ := List.mem_iff_getElem?.mp hchunk
  obtain ⟨g, hg⟩ := List.mem_iff_getElem?.mp hrow
  obtain ⟨r, hr, hres⟩ := forall₂_getElem? hrs hk
  obtain ⟨x, hx, rfl, hxg⟩ := matched_of_storedMatch rfl hres hp hg hs
  exact h k chunk r hk hr x hx row (by rw [hxg]; exact hg)

/-- **When NULL keys match nothing.** For every build side, every chunks of probe
rows and every residual filter: in every join mode, and with either probe loop, no
pair with a NULL key is taken for a match, exactly when no row with a NULL key has
stored key values that equal those of the other side. -/
theorem nullsNeverMatch_iff (desc : HashJoinDesc)
    (b : BuildSide desc.buildKeyLayout desc.buildLayout) (chunks : List DataChunk) :
    (∀ mode : HashJoinMatchMode, ∃ rs,
      Arrives (fun fuel => probeChunks { desc with joinMode := mode } b.payload fuel chunks .fresh) rs ∧
        NullsNeverMatch desc b chunks rs) ↔ NullKeysDiffer desc b chunks := by
  constructor
  · intro h
    obtain ⟨rs, harr, hnull⟩ := h .left
    exact hnull.differ harr
  · intro h mode
    obtain ⟨rs, harr, hrs⟩ := probeChunks_fresh { desc with joinMode := mode } b chunks
    refine ⟨rs, harr, fun k chunk r hk hr x hx row hrow => ?_⟩
    obtain ⟨r', hr', hres⟩ := forall₂_getElem? hrs hk
    obtain rfl := Option.some.inj (hr.symm.trans hr')
    obtain ⟨hp, row', hmem, hrow', hs⟩ := storedMatch_of_matched hres hx
    obtain rfl := Option.some.inj (hrow.symm.trans hrow')
    exact h chunk (List.mem_of_getElem? hk) x.1 hp row hmem hs

/-- The build side of one row with an INT32 value in slot 0. -/
def int32Build (value : Int32) (isNull : UInt8) : BuildSide [⟨.int32, 0⟩] [⟨.int32, 0⟩] :=
  .finalize _ _ [⟨int32Chunk value isNull, 0⟩] (fun _ => 0) (fun _ => 0)
    (show 1 < 2 ^ 32 by decide) (show computeHashTableCapacity 1 ≠ none by decide)

/-- A build row with a NULL key over the value 7 is matched by a probe row with key 7. -/
theorem null_build_row_matches :
    ¬ ∀ mode : HashJoinMatchMode, ∃ rs,
      Arrives (fun fuel =>
        probeChunks (int32Join mode) (int32Build 7 1).payload fuel [int32Chunk 7 0] .fresh) rs ∧
      NullsNeverMatch (int32Join mode) (int32Build 7 1) [int32Chunk 7 0] rs := by
  intro h
  obtain ⟨rs, harr, hnull⟩ := h .left
  have hdiffer : NullKeysDiffer (int32Join .left) (int32Build 7 1) [int32Chunk 7 0] :=
    NullsNeverMatch.differ harr hnull
  have hrow := hdiffer (int32Chunk 7 0) (List.mem_singleton_self _) 0 Nat.zero_lt_one
    ⟨int32Chunk 7 1, 0⟩ (List.mem_singleton_self _) (by decide)
  cases hrow.2

end Nulls

/-! ## The fast loop -/

section Fast
variable {desc : HashJoinDesc} {b : BuildSide desc.buildKeyLayout desc.buildLayout}

/-- Without a filter and without payload output a written row does not depend on
the build row. -/
theorem copyResolvedJoinRow_left (hright : outputColumnsReferenceRight desc.outputColumns = false)
    (chunk : DataChunk) (p : Nat) (right right' : Option (List Datum)) :
    copyResolvedJoinRow desc chunk p right = copyResolvedJoinRow desc chunk p right' := by
  refine List.map_congr_left fun col hcol => ?_
  unfold copyResolvedJoinColumn
  cases hk : col.decodeKind.toTdcKind with
  | none => rfl
  | some kind =>
    cases hside : col.side with
    | left => rfl
    | right =>
      exfalso
      have hno : ¬ (col.side = .right ∧ col.decodeKind ≠ .none) := by
        have hany := List.any_eq_false.mp hright col hcol
        simpa using hany
      refine hno ⟨hside, fun hnone => ?_⟩
      rw [hnone] at hk
      cases hk

/-- Where the fast loop is enabled, both loops write the same row for a pair. -/
theorem writeGeneral_eq_writeFast (hfast : fastInnerEnabled desc = true) (payload : HashJoinPayload)
    (chunk : DataChunk) (row : JoinedRow) :
    writeGeneral desc payload chunk row = writeFast desc payload chunk row := by
  unfold writeGeneral writeFast
  by_cases hneeds : needsBuildRow desc = true
  · rw [if_pos hneeds]
  · rw [if_neg hneeds]
    have hnone := (fastInnerEnabled_layouts hfast).2.1
    refine copyResolvedJoinRow_left ?_ chunk row.1 _ _
    simpa [needsBuildRow, hnone] using hneeds

theorem fastRow_sublist (nullKey : Nat → Bool) (candidates : Nat → List UInt32) (p : Nat) :
    (rowRest .inner p false (fastCandidates nullKey candidates p)).Sublist
      (rowRest .inner p false (candidates p)) := by
  unfold fastCandidates
  split
  · exact List.nil_sublist _
  · exact List.Sublist.refl _

/-- A probe row has no candidates exactly when it has no stored match. -/
theorem candidates_eq_nil_iff {chunk : DataChunk} {p : Nat} {candidates : List UInt32}
    (hmem : ∀ g, g ∈ candidates ↔ b.test (storedMatch desc chunk p) g.toNat = true) :
    candidates = [] ↔ ∀ row ∈ b.rows, storedMatch desc chunk p row = false := by
  constructor
  · intro hnil row hrow
    have hfit := b.rows_fit
    obtain ⟨g, hg⟩ := List.mem_iff_getElem?.mp hrow
    have hlt : g < b.rows.length := (List.getElem?_eq_some_iff.mp hg).1
    by_contra hs
    have hin : UInt32.ofNat g ∈ candidates := by
      rw [hmem, UInt32.toNat_ofNat', Nat.mod_eq_of_lt (by omega), BuildSide.test, hg]
      simpa using hs
    rw [hnil] at hin
    cases hin
  · intro hno
    refine List.eq_nil_iff_forall_not_mem.mpr fun g hg => ?_
    have htest := (hmem g).mp hg
    rw [BuildSide.test] at htest
    cases hr : b.rows[g.toNat]? with
    | none =>
      rw [hr] at htest
      cases htest
    | some row =>
      rw [hr] at htest
      have hs : storedMatch desc chunk p row = true := htest
      rw [hno row (List.mem_of_getElem? hr)] at hs
      cases hs

/-- What both loops write, from the stored matches of every probe row. -/
theorem bothLoops_arrive (hfast : fastInnerEnabled desc = true) {t : HashTable}
    (ht : b.table = some t) (chunk : DataChunk) :
    ∃ rf rg, ∃ candidates : Nat → List UInt32,
      Arrives (fun n => resume (afterDrained (executeFast desc b.payload t chunk)) n .fresh) rf ∧
      Arrives (fun n => resume (afterDrained (executeGeneral desc b.payload t chunk)) n .fresh) rg ∧
      rf.out = rowsFrom .inner chunk.count
        (fastCandidates (fastNullKey desc chunk) candidates) 0 ∧
      rg.out = rowsFrom .inner chunk.count candidates 0 ∧
      ∀ p, candidates p = [] ↔ ∀ row ∈ b.rows, storedMatch desc chunk p row = false := by
  have hidle : HashJoinProbeCursor.fresh.Idle := ⟨rfl, rfl⟩
  have hfin : Finalized (storedRows desc.buildKeyLayout desc.buildLayout b.rows) t := by
    have h := b.finalized
    rw [ht] at h
    exact h.2
  obtain ⟨candidates, hreach, hcand⟩ := exists_candidates (generalInput desc b.payload chunk) hfin rfl
    generalInput_accepts
  have hreach' : Reaches t (fastInput desc b.payload chunk) candidates := by
    refine ⟨fun p hp => ?_⟩
    have haccepts : (fastInput desc b.payload chunk).accepts p =
        (generalInput desc b.payload chunk).accepts p := by
      funext g
      rw [fastInput_accepts hfast, generalInput_accepts]
    rw [haccepts, fastInput_hash hfast]
    exact hreach.chain p hp
  obtain ⟨rg, harrg, hg⟩ := resume_general chunk hreach hidle
  obtain ⟨rf, harrf, hf⟩ := resume_fast hfast chunk hreach' hidle
  have hmode := (fastInnerEnabled_layouts hfast).1
  exact ⟨rf, rg, candidates, harrf, harrg, hmode ▸ hf.out, hmode ▸ hg.out,
    fun p => candidates_eq_nil_iff (hcand p).2⟩

/-- **When the fast loop is the general loop.** For every configuration in which the
fast loop is enabled, every finalized table and every chunk: both loops, resumed,
terminate, and write the same rows in the same order, exactly when no probe row
with the null flag has the stored key of a build row. -/
theorem fastProbe_eq_general_iff (desc : HashJoinDesc) (hfast : fastInnerEnabled desc = true)
    (b : BuildSide desc.buildKeyLayout desc.buildLayout) {t : HashTable} (ht : b.table = some t)
    (chunk : DataChunk) :
    ∃ rf rg,
      Arrives (fun n => resume (afterDrained (executeFast desc b.payload t chunk)) n .fresh) rf ∧
      Arrives (fun n => resume (afterDrained (executeGeneral desc b.payload t chunk)) n .fresh) rg ∧
      (rf.out.map (writeFast desc b.payload chunk) = rg.out.map (writeGeneral desc b.payload chunk) ↔
        ∀ p, p < chunk.count → fastNullKey desc chunk p = true →
          ∀ row ∈ b.rows, storedMatch desc chunk p row = false) := by
  obtain ⟨rf, rg, candidates, harrf, harrg, hout, hout', hstored⟩ := bothLoops_arrive hfast ht chunk
  refine ⟨rf, rg, harrf, harrg, ?_⟩
  have hwrite : writeGeneral desc b.payload chunk = writeFast desc b.payload chunk :=
    funext fun row => writeGeneral_eq_writeFast hfast b.payload chunk row
  have hrow := fastRow_sublist (fastNullKey desc chunk) candidates
  -- the fast output is a sublist, so equal written rows are equally many rows
  have hsub : rf.out.Sublist rg.out := by
    rw [hout, hout', rowsFrom, rowsFrom]
    exact List.Sublist.flatMap_right _ fun p _ => hrow p
  have hlen : rf.out.map (writeFast desc b.payload chunk) =
      rg.out.map (writeFast desc b.payload chunk) ↔ rf.out = rg.out := by
    constructor
    · intro h
      have hl := congrArg List.length h
      rw [List.length_map, List.length_map] at hl
      exact hsub.eq_of_length hl
    · intro h
      rw [h]
  rw [hwrite, hlen, hout, hout', rowsFrom, rowsFrom,
    List.flatMap_eq_iff_of_sublist fun p _ => hrow p]
  have hrange : ∀ p, p ∈ List.range' 0 (chunk.count - 0) ↔ p < chunk.count := by
    intro p
    rw [Nat.sub_zero, ← List.range_eq_range', List.mem_range]
  constructor
  · intro h p hp hnull
    have heq := h p ((hrange p).mpr hp)
    rw [fastCandidates, if_pos hnull] at heq
    exact (hstored p).mp (List.map_eq_nil_iff.mp heq.symm)
  · intro h p hp
    unfold fastCandidates
    split
    · rename_i hnull
      rw [(hstored p).mpr (h p ((hrange p).mp hp) hnull)]
    · rfl

/-- The table of a build side of one row. -/
def int32Table (value : Int32) (isNull : UInt8) : HashTable :=
  ((int32Build value isNull).table).getD ⟨0, fun _ => 0, fun _ => 0, fun _ => 0⟩

/-- The build row has key 7, and the probe row has a NULL key over another value. -/
theorem fastProbe_eq_general_seven : ∃ rf rg,
    Arrives (fun n => resume (afterDrained (executeFast (int32Join .inner) (int32Build 7 0).payload
      (int32Table 7 0) (int32Chunk 8 1))) n .fresh) rf ∧
    Arrives (fun n => resume (afterDrained (executeGeneral (int32Join .inner)
      (int32Build 7 0).payload (int32Table 7 0) (int32Chunk 8 1))) n .fresh) rg ∧
    rf.out.map (writeFast (int32Join .inner) (int32Build 7 0).payload (int32Chunk 8 1)) =
      rg.out.map (writeGeneral (int32Join .inner) (int32Build 7 0).payload (int32Chunk 8 1)) := by
  obtain ⟨rf, rg, harrf, harrg, hiff⟩ := fastProbe_eq_general_iff (int32Join .inner) (by decide)
    (int32Build 7 0) (t := int32Table 7 0) rfl (int32Chunk 8 1)
  refine ⟨rf, rg, harrf, harrg, hiff.mpr fun p hp _ row hrow => ?_⟩
  obtain rfl : p = 0 := Nat.lt_one_iff.mp hp
  obtain rfl : row = ⟨int32Chunk 7 0, 0⟩ := List.mem_singleton.mp hrow
  decide

/-- The probe row has a NULL key over the value 7 of the build row: the general loop
writes a row, the fast loop does not. -/
theorem fastProbe_ne_general_seven : ∃ rf rg,
    Arrives (fun n => resume (afterDrained (executeFast (int32Join .inner) (int32Build 7 0).payload
      (int32Table 7 0) (int32Chunk 7 1))) n .fresh) rf ∧
    Arrives (fun n => resume (afterDrained (executeGeneral (int32Join .inner)
      (int32Build 7 0).payload (int32Table 7 0) (int32Chunk 7 1))) n .fresh) rg ∧
    rf.out.map (writeFast (int32Join .inner) (int32Build 7 0).payload (int32Chunk 7 1)) ≠
      rg.out.map (writeGeneral (int32Join .inner) (int32Build 7 0).payload (int32Chunk 7 1)) := by
  obtain ⟨rf, rg, candidates, harrf, harrg, hout, hout', hstored⟩ :=
    bothLoops_arrive (show fastInnerEnabled (int32Join .inner) = true by decide)
      (b := int32Build 7 0) (t := int32Table 7 0) rfl (int32Chunk 7 1)
  refine ⟨rf, rg, harrf, harrg, fun heq => ?_⟩
  have hnil : rf.out = [] := by
    rw [hout]
    rfl
  rw [hnil, List.map_nil] at heq
  have hgnil : rg.out = [] := List.map_eq_nil_iff.mp heq.symm
  rw [hout'] at hgnil
  have hcand : candidates 0 = [] := by
    have h0 : rowRest .inner 0 false (candidates 0) ++ [] = [] := hgnil
    rw [List.append_nil] at h0
    exact List.map_eq_nil_iff.mp h0
  have hno := (hstored 0).mp hcand ⟨int32Chunk 7 0, 0⟩ (List.mem_singleton_self _)
  have hyes : storedMatch (int32Join .inner) (int32Chunk 7 1) 0 ⟨int32Chunk 7 0, 0⟩ = true := by
    decide
  rw [hyes] at hno
  cases hno

end Fast
end HashJoinProbe
end PgYaap
