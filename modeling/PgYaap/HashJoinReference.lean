import Mathlib
import PgYaap.HashJoinProbeLoops

/-! # The hash join against the SQL join

The reference is the nested-loop join of the probe rows and the build rows under
SQL equality: a NULL key matches nothing, and the two zeros of a double are
equal. The code compares stored values bit for bit and does not look at the null
flags of the build rows. The theorems say what the resumed probe of any chunks
writes, and exactly when that is the join. -/
namespace PgYaap
namespace HashJoinProbe
open HashJoinCombine

/-- A row of a chunk. -/
structure ChunkRow where
  chunk : DataChunk
  rowIdx : Nat

/-- The hash table belongs to the stored rows: every row has the salt of its hash,
and the chain of a bucket holds the rows of that bucket. -/
structure Finalized (rows : List BuildRow) (t : HashTable) : Prop where
  rows_fit : rows.length < 2 ^ 32
  salt : ∀ g row, rows[g.toNat]? = some row → t.salts g = hashJoinSalt (hashGroupRow row.keys)
  chain : ∀ hash, ∃ l, Chain t (t.bucketHeads (hashBucket t.capacity hash)) l ∧
    ∀ g, g ∈ l ↔ ∃ row, rows[g.toNat]? = some row ∧
      hashBucket t.capacity (hashGroupRow row.keys) = hashBucket t.capacity hash

/-- The stored rows of the sunk rows. -/
def storedRows (buildKeyLayout buildLayout : List TdcColumnDesc) (rows : List ChunkRow) :
    List BuildRow :=
  rows.map fun r => sinkRow buildKeyLayout buildLayout r.chunk r.rowIdx

/-- A finalized build side: the sunk rows in the order of the global table, and the
hash table, which is missing exactly when there are no rows. -/
structure BuildSide (buildKeyLayout buildLayout : List TdcColumnDesc) where
  rows : List ChunkRow
  table : Option HashTable
  finalized : match table with
    | none => rows = []
    | some t => rows ≠ [] ∧ Finalized (storedRows buildKeyLayout buildLayout rows) t

def BuildSide.payload {kl bl : List TdcColumnDesc} (b : BuildSide kl bl) : HashJoinPayload where
  buildRows := storedRows kl bl b.rows
  table := b.table

/-! ## Tables that are finalized -/

section Finalize

/-- The invariant of the loop of `Finalize`: the table belongs to the rows so far. -/
structure Filled (rows : List BuildRow) (t : HashTable) : Prop where
  salt : ∀ g row, rows[g.toNat]? = some row → t.salts g = hashJoinSalt (hashGroupRow row.keys)
  chain : ∀ bucket, ∃ l, Chain t (t.bucketHeads bucket) l ∧
    ∀ g, g ∈ l ↔ ∃ row, rows[g.toNat]? = some row ∧
      hashBucket t.capacity (hashGroupRow row.keys) = bucket

/-- One turn of the loop of `Finalize`. -/
theorem Filled.insert {rows : List BuildRow} {t : HashTable} (h : Filled rows t) (row : BuildRow)
    (hfit : rows.length + 1 < 2 ^ 32) :
    Filled (rows ++ [row]) (t.insert (UInt32.ofNat rows.length) (hashGroupRow row.keys)) := by
  have hof : (UInt32.ofNat rows.length).toNat = rows.length := by
    rw [UInt32.toNat_ofNat', Nat.mod_eq_of_lt (by omega)]
  have hne : UInt32.ofNat rows.length ≠ invalidRow := by
    intro heq
    have hnat := congrArg UInt32.toNat heq
    rw [hof] at hnat
    have hinv : invalidRow.toNat = 2 ^ 32 - 1 := rfl
    omega
  have hold : ∀ g : UInt32, g ≠ UInt32.ofNat rows.length →
      (rows ++ [row])[g.toNat]? = rows[g.toNat]? := by
    intro g hg
    rcases Nat.lt_or_ge g.toNat rows.length with hlt | hge
    · exact List.getElem?_append_left hlt
    · have hgt : rows.length < g.toNat := by
        refine Nat.lt_of_le_of_ne hge fun heq => hg ?_
        rw [heq, UInt32.ofNat_toNat]
      rw [List.getElem?_eq_none (by simpa using hgt), List.getElem?_eq_none hge]
  have hnew : (rows ++ [row])[(UInt32.ofNat rows.length).toNat]? = some row := by
    rw [hof]
    exact List.getElem?_concat_length
  have hfresh : rows[(UInt32.ofNat rows.length).toNat]? = none := by
    rw [hof]
    exact List.getElem?_eq_none (Nat.le_refl _)
  constructor
  · intro g r hr
    by_cases hg : g = UInt32.ofNat rows.length
    · subst hg
      rw [hnew, Option.some.injEq] at hr
      subst hr
      exact Function.update_self _ _ _
    · rw [hold g hg] at hr
      exact (Function.update_of_ne hg _ _).trans (h.salt g r hr)
  · intro bucket
    obtain ⟨l, hchain, hmem⟩ := h.chain bucket
    have hnotin : UInt32.ofNat rows.length ∉ l := by
      intro hin
      obtain ⟨r, hr, _⟩ := (hmem _).mp hin
      rw [hfresh] at hr
      cases hr
    by_cases hbucket : bucket = hashBucket t.capacity (hashGroupRow row.keys)
    · subst hbucket
      refine ⟨UInt32.ofNat rows.length :: l, ?_, fun g => ?_⟩
      · have hpush := LinkedChain.push hchain hne hnotin
        have hhead : (t.insert (UInt32.ofNat rows.length) (hashGroupRow row.keys)).bucketHeads
            (hashBucket t.capacity (hashGroupRow row.keys)) = UInt32.ofNat rows.length :=
          Function.update_self _ _ _
        rw [hhead]
        exact hpush
      · rw [List.mem_cons, hmem]
        by_cases hg : g = UInt32.ofNat rows.length
        · subst hg
          exact ⟨fun _ => ⟨row, hnew, rfl⟩, fun _ => Or.inl rfl⟩
        · rw [hold g hg]
          exact ⟨fun hin => hin.resolve_left hg, Or.inr⟩
    · refine ⟨l, ?_, fun g => ?_⟩
      · have hhead : (t.insert (UInt32.ofNat rows.length) (hashGroupRow row.keys)).bucketHeads
            bucket = t.bucketHeads bucket := Function.update_of_ne hbucket _ _
        rw [hhead]
        exact LinkedChain.update hchain hnotin
      · rw [hmem]
        by_cases hg : g = UInt32.ofNat rows.length
        · subst hg
          rw [hfresh, hnew]
          constructor
          · rintro ⟨r, hr, _⟩
            cases hr
          · rintro ⟨r, hr, hb⟩
            rw [Option.some.injEq] at hr
            subst hr
            exact absurd hb.symm hbucket
        · rw [hold g hg]
          exact Iff.rfl

/-- The loop of `Finalize`, from the rows before on. -/
theorem Filled.foldl {done : List BuildRow} {t : HashTable} (h : Filled done t)
    (rest : List BuildRow) (hfit : (done ++ rest).length < 2 ^ 32) :
    Filled (done ++ rest) ((rest.zipIdx done.length).foldl
      (fun t x => t.insert (UInt32.ofNat x.2) (hashGroupRow x.1.keys)) t) := by
  induction rest generalizing done t with
  | nil =>
    rw [List.append_nil]
    exact h
  | cons row rest ih =>
    rw [List.length_append, List.length_cons] at hfit
    have hstep := h.insert row (by omega)
    have hrest := ih hstep (by
      rw [List.length_append, List.length_append, List.length_singleton]
      omega)
    rw [List.append_assoc, List.singleton_append, List.length_append, List.length_singleton] at hrest
    exact hrest

/-- **`Finalize` leaves a finalized table.** -/
theorem finalize_finalized {rows : List BuildRow} {links : UInt32 → UInt32} {salts : UInt32 → UInt16}
    {t : HashTable} (hfit : rows.length < 2 ^ 32) (h : finalize rows links salts = some t) :
    Finalized rows t := by
  unfold finalize at h
  split at h
  · cases h
  · obtain ⟨capacity, _, rfl⟩ := Option.map_eq_some_iff.mp h
    have hempty : Filled [] ⟨capacity, fun _ => invalidRow, links, salts⟩ := by
      refine ⟨fun g row hr => ?_, fun bucket => ⟨[], .nil, fun g => ?_⟩⟩
      · cases hr
      · constructor
        · intro hg
          cases hg
        · rintro ⟨row, hr, _⟩
          cases hr
    have hall := hempty.foldl rows hfit
    exact ⟨hfit, hall.salt, fun hash => hall.chain _⟩

/-- The build side of sunk rows, finalized. -/
def BuildSide.finalize (buildKeyLayout buildLayout : List TdcColumnDesc) (rows : List ChunkRow)
    (links : UInt32 → UInt32) (salts : UInt32 → UInt16) (hfit : rows.length < 2 ^ 32)
    (hcapacity : computeHashTableCapacity (UInt32.ofNat rows.length) ≠ none) :
    BuildSide buildKeyLayout buildLayout where
  rows := rows
  table := HashJoinProbe.finalize (storedRows buildKeyLayout buildLayout rows) links salts
  finalized := by
    have hlen : (storedRows buildKeyLayout buildLayout rows).length = rows.length :=
      List.length_map _
    cases h : HashJoinProbe.finalize (storedRows buildKeyLayout buildLayout rows) links salts with
    | none =>
      rw [HashJoinProbe.finalize, hlen] at h
      split at h
      · rename_i hempty
        simpa [storedRows] using hempty
      · exact absurd (Option.map_eq_none_iff.mp h) hcapacity
    | some t =>
      refine ⟨?_, finalize_finalized (hlen ▸ hfit) h⟩
      rintro rfl
      cases h

end Finalize

section Matches
variable (desc : HashJoinDesc) (b : BuildSide desc.buildKeyLayout desc.buildLayout)

/-- Stored key values equal the probe values, and the residual filter passes. -/
def storedMatch (chunk : DataChunk) (p : Nat) (row : ChunkRow) : Bool :=
  scatterGroupColumns desc.buildKeyLayout row.chunk row.rowIdx =
      chunk.groupColumns desc.probeKeyLayout p &&
    match desc.joinFilter with
    | none => true
    | some f => f chunk p (scatterGroupColumns desc.buildLayout row.chunk row.rowIdx)

/-- A double that is a zero, of either sign. -/
def doubleIsZero (bits : UInt64) : Bool := bits <<< 1 = 0

/-- A double that is not a number. -/
def doubleIsNaN (bits : UInt64) : Bool := bits <<< 1 > 0xFFE0000000000000

/-- SQL equality of two values that are not NULL. -/
def sqlEqual : Datum → Datum → Bool
  | .double a, .double b =>
    a = b || doubleIsZero a && doubleIsZero b || doubleIsNaN a && doubleIsNaN b
  | a, b => a = b

def sqlEqualKeys (a b : List Datum) : Bool :=
  a.length = b.length && (a.zip b).all fun x => sqlEqual x.1 x.2

/-- SQL equality of the join keys, with NULL equal to nothing, and the residual filter. -/
def sqlMatch (chunk : DataChunk) (p : Nat) (row : ChunkRow) : Bool :=
  !chunk.hasNull desc.probeKeyLayout p && !row.chunk.hasNull desc.buildKeyLayout row.rowIdx &&
    sqlEqualKeys (row.chunk.groupColumns desc.buildKeyLayout row.rowIdx)
      (chunk.groupColumns desc.probeKeyLayout p) &&
    match desc.joinFilter with
    | none => true
    | some f => f chunk p (row.chunk.groupColumns desc.buildLayout row.rowIdx)

/-- What the probe takes for a match: the fast loop passes over a probe row with
the null flag. -/
def probeMatch (chunk : DataChunk) (p : Nat) (row : ChunkRow) : Bool :=
  storedMatch desc chunk p row && !(usesFastProbe desc && fastNullKey desc chunk p)

end Matches

/-- A match relation on the rows of a build side, by position. -/
def BuildSide.test {kl bl : List TdcColumnDesc} (b : BuildSide kl bl) (p : ChunkRow → Bool)
    (g : Nat) : Bool :=
  match b.rows[g]? with
  | none => false
  | some row => p row

/-! ## What the loops find -/

section Find
variable {desc : HashJoinDesc} {b : BuildSide desc.buildKeyLayout desc.buildLayout}
  {chunk : DataChunk}

theorem storedRows_getElem? {kl bl : List TdcColumnDesc} (rows : List ChunkRow) (g : Nat) :
    (storedRows kl bl rows)[g]? = rows[g]?.map fun r => sinkRow kl bl r.chunk r.rowIdx :=
  List.getElem?_map

/-- The general loop accepts exactly the stored matches. -/
theorem generalInput_accepts (p : Nat) (g : UInt32) :
    (generalInput desc b.payload chunk).accepts p g =
      b.test (storedMatch desc chunk p) g.toNat := by
  change (keyMatches desc b.payload chunk p g && filterPasses desc b.payload chunk p g) = _
  unfold keyMatches filterPasses BuildSide.test
  have hrow : b.payload.buildRows[g.toNat]? = _ := storedRows_getElem? b.rows g.toNat
  rw [hrow]
  cases b.rows[g.toNat]? with
  | none => rfl
  | some row =>
    have hkey : matchGroupLayouts desc.buildKeyLayout
          (scatterGroupColumns desc.buildKeyLayout row.chunk row.rowIdx) desc.probeKeyLayout chunk p =
        decide (scatterGroupColumns desc.buildKeyLayout row.chunk row.rowIdx =
          chunk.groupColumns desc.probeKeyLayout p) := by
      rw [Bool.eq_iff_iff, matchGroupLayouts_iff (scatter_kinds _ _ _), decide_eq_true_iff]
    cases hf : desc.joinFilter with
    | none => simp only [Option.map_some, sinkRow, hkey, storedMatch, hf]
    | some f => simp only [Option.map_some, sinkRow, hkey, storedMatch, hf]

/-- A stored match has the hash of the probe row. -/
theorem hash_of_storedMatch {p : Nat} {row : ChunkRow} (h : storedMatch desc chunk p row = true) :
    hashGroupRow (scatterGroupColumns desc.buildKeyLayout row.chunk row.rowIdx) =
      hashGroup desc.probeKeyLayout chunk p := by
  simp only [storedMatch, Bool.and_eq_true, decide_eq_true_eq] at h
  rw [hashGroupRow_eq, hashGroup_eq, h.1]

/-- Rows found by a match relation, in the order of their positions. -/
theorem BuildSide.test_lt {kl bl : List TdcColumnDesc} {b : BuildSide kl bl} {p : ChunkRow → Bool}
    {g : Nat} (h : b.test p g = true) : g < b.rows.length := by
  by_contra hge
  rw [BuildSide.test, List.getElem?_eq_none (Nat.le_of_not_lt hge)] at h
  cases h

/-- A loop whose matches have the hash of the probe row reaches all of them. -/
theorem exists_candidates {t : HashTable} (v : ProbeInput)
    (hfin : Finalized (storedRows desc.buildKeyLayout desc.buildLayout b.rows) t)
    (hhash : v.hash = hashGroup desc.probeKeyLayout chunk)
    (hacc : ∀ p g, v.accepts p g = b.test (storedMatch desc chunk p) g.toNat) :
    ∃ candidates, Reaches t v candidates ∧ ∀ p, (candidates p).Nodup ∧
      ∀ g, g ∈ candidates p ↔ b.test (storedMatch desc chunk p) g.toNat = true := by
  have hrow : ∀ p, ∃ l, Chain t (t.bucketHeads (hashBucket t.capacity (v.hash p))) l ∧
      (∀ g ∈ l, v.accepts p g = true → t.salts g = hashJoinSalt (v.hash p)) ∧
      ∀ g, v.accepts p g = true → g ∈ l := by
    intro p
    obtain ⟨l, hchain, hmem⟩ := hfin.chain (v.hash p)
    have hstored : ∀ g, v.accepts p g = true → ∃ row,
        (storedRows desc.buildKeyLayout desc.buildLayout b.rows)[g.toNat]? = some row ∧
          hashGroupRow row.keys = v.hash p := by
      intro g hg
      rw [hacc, BuildSide.test] at hg
      cases hr : b.rows[g.toNat]? with
      | none =>
        rw [hr] at hg
        cases hg
      | some row =>
        rw [hr] at hg
        refine ⟨_, by rw [storedRows_getElem?, hr]; rfl, ?_⟩
        rw [hhash]
        exact hash_of_storedMatch hg
    refine ⟨l, hchain, fun g _ hg => ?_, fun g hg => ?_⟩
    · obtain ⟨row, hr, hh⟩ := hstored g hg
      rw [hfin.salt g row hr, hh]
    · obtain ⟨row, hr, hh⟩ := hstored g hg
      exact (hmem g).mpr ⟨row, hr, by rw [hh]⟩
  choose l hchain hsalt hmem using hrow
  refine ⟨fun p => (l p).filter (v.accepts p), ⟨fun p _ => ⟨l p, hchain p, hsalt p, rfl⟩⟩,
    fun p => ⟨(LinkedChain.nodup (hchain p)).filter _, fun g => ?_⟩⟩
  rw [List.mem_filter, ← hacc]
  exact ⟨fun h => h.2, fun h => ⟨hmem p g h, h⟩⟩

/-- Candidates, in whatever order the chain has them, are the rows a match relation finds. -/
theorem candidates_perm {q : Nat → Bool} {candidates : List UInt32} {n : Nat}
    (hnodup : candidates.Nodup) (hmem : ∀ g, g ∈ candidates ↔ q g.toNat = true)
    (hlt : ∀ g, q g = true → g < n) (hn : n < 2 ^ 32) :
    (candidates.map UInt32.toNat).Perm ((List.range n).filter q) := by
  have hinj : Function.Injective UInt32.toNat := fun a b h => UInt32.toNat_inj.mp h
  refine (List.perm_ext_iff_of_nodup (hnodup.map hinj) (List.nodup_range.filter _)).mpr fun g => ?_
  rw [List.mem_map, List.mem_filter, List.mem_range]
  constructor
  · rintro ⟨x, hx, rfl⟩
    have hq := (hmem x).mp hx
    exact ⟨hlt _ hq, hq⟩
  · rintro ⟨hg, hq⟩
    have hof : (UInt32.ofNat g).toNat = g := by
      rw [UInt32.toNat_ofNat', Nat.mod_eq_of_lt (by omega)]
    exact ⟨UInt32.ofNat g, (hmem _).mpr (by rw [hof]; exact hq), hof⟩

/-- The layouts of a join on one integer key. -/
theorem fastInnerEnabled_layouts (h : fastInnerEnabled desc = true) :
    desc.joinMode = .inner ∧ desc.joinFilter = none ∧ ∃ probeCol buildCol,
      desc.probeKeyLayout = [probeCol] ∧ desc.buildKeyLayout = [buildCol] ∧
        probeCol.kind = buildCol.kind ∧ (probeCol.kind = .int32 ∨ probeCol.kind = .int64) := by
  simp only [fastInnerEnabled, Bool.and_eq_true, decide_eq_true_eq, Option.isNone_iff_eq_none] at h
  obtain ⟨⟨⟨hmode, _⟩, hfilter⟩, hlayouts⟩ := h
  refine ⟨hmode, hfilter, ?_⟩
  split at hlayouts
  · rename_i probeCol buildCol hp hb
    simp only [Bool.and_eq_true, Bool.or_eq_true, decide_eq_true_eq] at hlayouts
    exact ⟨probeCol, buildCol, hp, hb, hlayouts.1.1, hlayouts.2⟩
  · cases hlayouts

/-- The typed hash of the fast loop is the hash of the general loop. -/
theorem fastInput_hash (h : fastInnerEnabled desc = true) :
    (fastInput desc b.payload chunk).hash = hashGroup desc.probeKeyLayout chunk := by
  obtain ⟨_, _, ⟨kind, slot⟩, buildCol, hp, _, _, hkind⟩ := fastInnerEnabled_layouts h
  funext p
  change fastHash desc chunk p = _
  unfold fastHash fastKeyColumn
  rw [hp]
  rcases hkind with hk | hk
  · dsimp only at hk
    subst hk
    rfl
  · dsimp only at hk
    subst hk
    rfl

/-- The typed comparison of the fast loop is the comparison of the general loop. -/
theorem fastInput_accepts (h : fastInnerEnabled desc = true) (p : Nat) (g : UInt32) :
    (fastInput desc b.payload chunk).accepts p g = b.test (storedMatch desc chunk p) g.toNat := by
  obtain ⟨_, hfilter, ⟨kind, slot⟩, ⟨kind', slot'⟩, hp, hb, hsame, hkind⟩ := fastInnerEnabled_layouts h
  dsimp only at hsame hkind
  subst hsame
  change (fastKeyMatches desc b.payload chunk p g && true) = _
  rw [Bool.and_true]
  unfold fastKeyMatches fastKeyColumn BuildSide.test
  have hrow : b.payload.buildRows[g.toNat]? = _ := storedRows_getElem? b.rows g.toNat
  rw [hrow, hp]
  cases b.rows[g.toNat]? with
  | none => rfl
  | some row =>
    simp only [Option.map_some, Option.bind_some, sinkRow, storedMatch, hfilter, hp, hb,
      scatterGroupColumns, DataChunk.groupColumns, List.map_cons, List.map_nil, List.head?_cons,
      List.headD_cons, Bool.and_true, List.cons.injEq, and_true]
    rcases hkind with rfl | rfl
    · rw [Bool.eq_iff_iff]
      simp only [DataChunk.get, Bool.and_eq_true, decide_eq_true_eq, Datum.int32.injEq, true_and]
      exact decide_eq_true_iff
    · rw [Bool.eq_iff_iff]
      simp only [DataChunk.get, Bool.and_eq_true, decide_eq_true_eq, Datum.int64.injEq, true_and]
      exact decide_eq_true_iff

end Find

/-! ## The probe of a chunk -/

section Probe
variable {desc : HashJoinDesc} {b : BuildSide desc.buildKeyLayout desc.buildLayout}

/-- What the resumed probe of a chunk has done: with `m p` the rows the probe row `p`
is matched with, in the order of the chain. -/
structure ChunkProbed (desc : HashJoinDesc) (b : BuildSide desc.buildKeyLayout desc.buildLayout)
    (chunk : DataChunk) (r : ProbeState) (m : Nat → List UInt32) : Prop where
  nodup : ∀ p, (m p).Nodup
  mem : ∀ p g, g ∈ m p ↔ b.test (probeMatch desc chunk p) g.toNat = true
  out : r.out = rowsFrom desc.joinMode chunk.count m 0
  sound : Sound chunk.count m r.matched
  logged : Logged r.out r.matched

theorem BuildSide.rows_fit {kl bl : List TdcColumnDesc} (b : BuildSide kl bl) :
    b.rows.length < 2 ^ 32 := by
  have h := b.finalized
  split at h
  · rw [h]
    decide
  · have hfit := h.2.rows_fit
    rwa [storedRows, List.length_map] at hfit

theorem Awaiting.idle (t : HashTable) {v : ProbeInput} {candidates : Nat → List UInt32}
    {mode : HashJoinMatchMode} {c : HashJoinProbeCursor} (h : c.Idle) :
    Awaiting t v candidates mode c (rowsFrom mode v.count candidates 0) := .start h.1 h.2

theorem test_probeMatch {chunk : DataChunk} {p g : Nat} :
    b.test (probeMatch desc chunk p) g =
      (b.test (storedMatch desc chunk p) g && !(usesFastProbe desc && fastNullKey desc chunk p)) := by
  unfold BuildSide.test
  cases b.rows[g]? with
  | none => rfl
  | some row => rfl

/-- The general loop, resumed. -/
theorem resume_general {t : HashTable} (chunk : DataChunk) {candidates : Nat → List UInt32}
    (hreach : Reaches t (generalInput desc b.payload chunk) candidates) {c : HashJoinProbeCursor}
    (hidle : c.Idle) :
    ∃ r, Arrives (fun n => resume (afterDrained (executeGeneral desc b.payload t chunk)) n c) r ∧
      Resumed (generalInput desc b.payload chunk) candidates
        (rowsFrom desc.joinMode chunk.count candidates 0) r := by
  refine resume_arrives t (fun hc => ?_) (Awaiting.idle t hidle)
  obtain ⟨r, harr, hr⟩ := call_arrives (probeLoop t desc.joinMode
    (generalInput desc b.payload chunk)) (probeLoop_arrives hreach) hc
  exact ⟨r, harr, hr⟩

/-- The fast loop, resumed. -/
theorem resume_fast (hfast : fastInnerEnabled desc = true) {t : HashTable} (chunk : DataChunk)
    {candidates : Nat → List UInt32} (hreach : Reaches t (fastInput desc b.payload chunk) candidates)
    {c : HashJoinProbeCursor} (hidle : c.Idle) :
    ∃ r, Arrives (fun n => resume (afterDrained (executeFast desc b.payload t chunk)) n c) r ∧
      Resumed (fastInput desc b.payload chunk) (fastCandidates (fastNullKey desc chunk) candidates)
        (rowsFrom desc.joinMode chunk.count
          (fastCandidates (fastNullKey desc chunk) candidates) 0) r := by
  rw [(fastInnerEnabled_layouts hfast).1]
  refine resume_arrives t (fun hc => ?_) (Awaiting.idle t hidle)
  obtain ⟨r, harr, hr⟩ := call_arrives (fastProbeLoop t (fastInput desc b.payload chunk)
    (fastNullKey desc chunk)) (fastProbeLoop_arrives (fun _ _ => rfl) hreach) hc
  exact ⟨r, harr, hr⟩

/-- **The resumed probe of a chunk** over a finalized build side with rows. -/
theorem probeChunk_arrives {t : HashTable} (ht : b.table = some t) (chunk : DataChunk)
    {c : HashJoinProbeCursor} (hidle : c.Idle) :
    ∃ r m, Arrives (fun n => resume (execute desc b.payload chunk) n c) r ∧ r.cursor.Idle ∧
      ChunkProbed desc b chunk r m := by
  have hfin : Finalized (storedRows desc.buildKeyLayout desc.buildLayout b.rows) t := by
    have h := b.finalized
    rw [ht] at h
    exact h.2
  have htable : b.payload.table = some t := ht
  by_cases hfast : usesFastProbe desc = true
  · have hen : fastInnerEnabled desc = true := by
      simp only [usesFastProbe, Bool.and_eq_true] at hfast
      exact hfast.2
    obtain ⟨candidates, hreach, hcand⟩ := exists_candidates (fastInput desc b.payload chunk) hfin
      (fastInput_hash hen) (fastInput_accepts hen)
    obtain ⟨r, harr, hr⟩ := resume_fast hen chunk hreach hidle
    refine ⟨r, fastCandidates (fastNullKey desc chunk) candidates, ?_, hr.idle, ?_, ?_, hr.out,
      hr.sound, hr.logged⟩
    · have hprobe : executeProbe desc b.payload chunk = executeFast desc b.payload t chunk := by
        funext n c
        simp only [executeProbe, htable, hfast, if_true]
      rw [execute, hprobe]
      exact harr
    · intro p
      unfold fastCandidates
      split
      · exact List.nodup_nil
      · exact (hcand p).1
    · intro p g
      unfold fastCandidates
      rw [test_probeMatch, hfast, Bool.true_and]
      cases fastNullKey desc chunk p with
      | true => simp
      | false =>
        simp only [Bool.false_eq_true, if_false, Bool.not_false, Bool.and_true]
        exact (hcand p).2 g
  · have hslow : usesFastProbe desc = false := by simpa using hfast
    obtain ⟨candidates, hreach, hcand⟩ := exists_candidates (generalInput desc b.payload chunk) hfin
      rfl generalInput_accepts
    obtain ⟨r, harr, hr⟩ := resume_general chunk hreach hidle
    refine ⟨r, candidates, ?_, hr.idle, fun p => (hcand p).1, ?_, hr.out, hr.sound, hr.logged⟩
    · have hprobe : executeProbe desc b.payload chunk = executeGeneral desc b.payload t chunk := by
        funext n c
        simp only [executeProbe, htable, hslow, Bool.false_eq_true, if_false]
      rw [execute, hprobe]
      exact harr
    · intro p g
      rw [test_probeMatch, hslow, Bool.false_and, Bool.not_false, Bool.and_true]
      exact (hcand p).2 g

/-- What the probe of one chunk comes to, with and without build rows. -/
def ChunkResult (desc : HashJoinDesc) (b : BuildSide desc.buildKeyLayout desc.buildLayout)
    (chunk : DataChunk) (r : ProbeState) : Prop :=
  (b.rows = [] → r.out = [] ∧ r.matched = []) ∧ (b.rows ≠ [] → ∃ m, ChunkProbed desc b chunk r m)

theorem chunkResult_arrives (chunk : DataChunk) {c : HashJoinProbeCursor} (hidle : c.Idle) :
    ∃ r, Arrives (fun n => resume (execute desc b.payload chunk) n c) r ∧ r.cursor.Idle ∧
      ChunkResult desc b chunk r := by
  cases ht : b.table with
  | none =>
    have hrows : b.rows = [] := by
      have h := b.finalized
      rw [ht] at h
      exact h
    have htable : b.payload.table = none := ht
    refine ⟨⟨c, [], []⟩, Arrives.of_succ ⟨0, fun n _ => ?_⟩, hidle, fun _ => ⟨rfl, rfl⟩,
      fun h => absurd hrows h⟩
    simp only [resume, execute, afterDrained, hidle.2, Bool.false_eq_true, if_false, executeProbe,
      htable, Option.bind_some, List.isEmpty_nil, if_true]
  | some t =>
    have hrows : b.rows ≠ [] := by
      have h := b.finalized
      rw [ht] at h
      exact h.1
    obtain ⟨r, m, harr, hidle', hm⟩ := probeChunk_arrives ht chunk hidle
    exact ⟨r, harr, hidle', fun h => absurd h hrows, fun _ => ⟨m, hm⟩⟩

/-- **Any chunks, one after the other**: the probe terminates with the result of each. -/
theorem probeChunks_arrives (chunks : List DataChunk) {c : HashJoinProbeCursor} (hidle : c.Idle) :
    ∃ rs, Arrives (fun n => probeChunks desc b.payload n chunks c) rs ∧
      List.Forall₂ (ChunkResult desc b) chunks rs := by
  induction chunks generalizing c with
  | nil => exact ⟨[], Arrives.pure [], .nil⟩
  | cons chunk chunks ih =>
    obtain ⟨r, harr, hidle', hr⟩ := chunkResult_arrives chunk hidle
    obtain ⟨rs, ⟨N, hN⟩, hrs⟩ := ih hidle'
    refine ⟨r :: rs, harr.bind ⟨N, fun n hn => ?_⟩, .cons hr hrs⟩
    have hN' := hN n hn
    dsimp only at hN' ⊢
    rw [hN', Option.map_some]

/-- The probe of any chunks by a new operator state. -/
theorem probeChunks_fresh (desc : HashJoinDesc)
    (b : BuildSide desc.buildKeyLayout desc.buildLayout) (chunks : List DataChunk) :
    ∃ rs, Arrives (fun n => probeChunks desc b.payload n chunks .fresh) rs ∧
      List.Forall₂ (ChunkResult desc b) chunks rs :=
  probeChunks_arrives chunks ⟨rfl, rfl⟩

end Probe

end HashJoinProbe
end PgYaap
