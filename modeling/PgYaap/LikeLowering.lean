import PgYaap.FilterAgreement
import PgYaap.LikePatterns
import PgYaap.ProjectionTape

/-! # LIKE predicates, lowered and run

A LIKE between a column and a constant pattern is lowered in four places: a scan, a standalone filter
and a join have filter programs, a projection has one step on its tape. The pattern is classified by
its wildcards: a prefix, a text to find anywhere, or a pattern to be matched token by token; the
projection has a step for prefixes of up to eight bytes only. A pattern with `_` is refused.

The classes are not those of the language. A pattern without `%` becomes a prefix, a pattern whose
only `%` is its first character becomes a text to find anywhere, and the tokens of other patterns that
do not end in `%` are matched as `LikePatterns` has it. No step knows the escape character, and with
the pattern on the left of the operator the column is matched against the constant all the same. -/
namespace PgYaap
namespace LikeLowering

open FilterProgram SqlLogic LikePatterns
open ProjectionTape (ProjectStep boolInt64)

/-! ## The lowering of a projection -/

/-- Up to eight bytes as the constant of a step. -/
def packBytes (bytes : Bytes) : Int64 := (UInt64.ofNat (ByteMemory.decode bytes)).toInt64

/-- `LowerProjectionStringLike`: the step of a LIKE, with the next slot for its result. The number of a
column is its slot. -/
def lowerProjectionStringLike (schema : Schema) (c : Compare) (nextInt64Slot : Nat) :
    Option ProjectStep :=
  match c.name, c.left, c.right with
  | .like, .column col, .constant value => do
    let s ← schema col
    if s.decodeKind ≠ .stringRef then none
    else
      let (isPrefix, text) ← tryExtractLikePattern (← value)
      if !isPrefix || 8 < text.length || 16 ≤ nextInt64Slot then none
      else some ⟨.stringPrefixLike, col, text.length, nextInt64Slot, packBytes text⟩
  | _, _, _ => none

/-- A row of strings as a projection sees it. -/
def projectionRow (row : Row) : ProjectionTape.Row where
  int32 k := (row.int32 k).value
  int64 k := (row.int64 k).value
  string k := (row.string k).value.val
  nulls k := (row.string k).isNull

/-! ## The places -/

/-- Where a LIKE is lowered: a scan, with what stands in the slots of its scratch chunk, a standalone
filter, a join, and a projection, with the next slot of its tape. -/
inductive Place
  | seqScan (scratch : FilterInputDesc → Int64)
  | filter
  | hashJoin
  | projection (nextInt64Slot : Nat) (yearOf : Int32 → Int64)

/-- What the step of a projection leaves in its slot: no value for an error or NULL. -/
def projectionAnswer (yearOf : Int32 → Int64) (row : Row) (step : ProjectStep) : Option Bool :=
  (ProjectionTape.execute yearOf [step] (projectionRow row)).toOption.bind fun result =>
    (result.register step.outChunkSlot).map (· ≠ 0)

/-- **What a place makes of a predicate on a row**: nothing where it refuses the predicate, and no
value where running it fails. -/
def Place.answer (place : Place) (T : TypeSupport) (schema : Schema) (row : Row) (c : Compare) :
    Option (Option Bool) :=
  match place with
  | seqScan scratch => (lowerScanFilters T schema [.compare c]).map fun prog =>
    ((scanEvaluator scratch row).executeScan prog).toOption
  | filter => (lowerScanFilters T schema [.compare c]).map fun prog =>
    ((filterEvaluator row).execute prog).toOption
  | hashJoin => (lowerJoinFilters T schema [.compare c]).map fun prog =>
    (executeJoin schema row prog).toOption
  | projection nextInt64Slot yearOf => (lowerProjectionStringLike schema c nextInt64Slot).map
    (projectionAnswer yearOf row)

/-- `~~` or `!~~` between a column and a pattern, the pattern on the left for `flip`. -/
def likeCompare (flip negated : Bool) (col : Nat) (pattern : Bytes) : Compare :=
  constCompare flip (if negated then .notLike else .like) col pattern

/-- **The SQL value** of the predicate on a text. -/
def likeValue (flip negated : Bool) (pattern text : Bytes) : Bool :=
  (if flip then like text pattern else like pattern text) ^^ negated

/-! ## Where a step strays -/

/-- How a place matches a pattern that does not end in `%` token by token. -/
def Place.matcher : Place → Bytes → Bytes → Bool
  | seqScan _ | hashJoin => matchPercentLikeToEnd
  | filter | projection _ _ => FilterProgram.matchPercentLikePattern

/-- **The texts that the step of a pattern answers otherwise** than a matching with `%` as the only
special character: behind a pattern without `%`, or with no other than its first character, more
text may follow; a pattern with more `%` that does not end in one is never matched by the standalone
filter, and by the others not on a text of which a proper front matches, too. -/
def Place.Strays (place : Place) (pattern text : Bytes) : Prop :=
  if percent ∉ pattern then pattern <+: text ∧ text ≠ pattern
  else if pattern.getLast? = some percent then False
  else if pattern.head? = some percent ∧ percent ∉ pattern.tail then
    pattern.tail <:+: text ∧ ¬ pattern.tail <:+ text
  else match place with
    | filter | projection _ _ => percentLike pattern text = true
    | seqScan _ | hashJoin => percentLike pattern text = true ∧ MatchesFront pattern text

/-- **When the answer is right**: where LIKE takes `%` for the only special character, the step must
not stray, and elsewhere it must. -/
def Place.RightOn (place : Place) (flip : Bool) (pattern text : Bytes) : Prop :=
  percentLike pattern text = likeValue flip false pattern text ↔ ¬ place.Strays pattern text

/-! ## Patterns with one token -/

theorem percentLike_token_iff' {token : Bytes} (htok : percent ∉ token) (text : Bytes) :
    percentLike token text = true ↔ text = token := by
  have hsplit := percentLike_append_iff htok [] text
  rw [List.append_nil] at hsplit
  rw [hsplit]
  constructor
  · rintro ⟨rest, rfl, hrest⟩
    rw [(percentLike_nil_iff rest).1 hrest, List.append_nil]
  · rintro rfl
    exact ⟨[], (List.append_nil text).symm, rfl⟩

theorem percentLike_suffix_iff {token : Bytes} (htok : percent ∉ token) (text : Bytes) :
    percentLike (percent :: token) text = true ↔ token <:+ text := by
  rw [percentLike_percent_iff]
  constructor
  · rintro ⟨rest, hrest, hmatch⟩
    rwa [← (percentLike_token_iff' htok rest).1 hmatch]
  · intro h
    exact ⟨token, h, (percentLike_token_iff' htok token).2 rfl⟩

/-- A test that answers as a pattern is read strays where the pattern is read otherwise. -/
theorem strays_of_likeReadAs (place : Place) {pattern : Bytes}
    (hread : (likeReadAs pattern).isSome) (text : Bytes) :
    (likeReadAs pattern).any (percentLike · text) = true ↔
      (percentLike pattern text = true ↔ ¬ place.Strays pattern text) := by
  unfold Place.Strays
  by_cases hpct : percent ∉ pattern
  · have heq : likeReadAs pattern = some (pattern ++ [percent]) := if_pos hpct
    rw [if_pos hpct, heq, Option.any_some, percentLike_prefix_iff hpct, percentLike_token_iff' hpct]
    constructor
    · intro hpre
      constructor
      · exact fun heq h => h.2 heq
      · exact fun h => not_not.1 fun hne => h ⟨hpre, hne⟩
    · intro hiff
      by_contra hpre
      have htext := hiff.2 fun h => hpre h.1
      exact hpre (htext ▸ List.prefix_rfl)
  · rw [if_neg hpct]
    by_cases hfront : pattern.head? = some percent ∧ percent ∉ pattern.tail ∧ pattern.tail ≠ []
    · obtain ⟨hhead, htail, hne⟩ := hfront
      have heq : likeReadAs pattern = some (pattern ++ [percent]) := by
        rw [likeReadAs, if_neg hpct, if_pos ⟨hhead, htail, hne⟩]
      obtain ⟨token, rfl⟩ : ∃ token, pattern = percent :: token :=
        ⟨pattern.tail, List.eq_cons_of_mem_head? hhead⟩
      rw [List.tail_cons] at htail hne
      have hlast : (percent :: token).getLast? ≠ some percent := by
        rw [List.getLast?_cons_of_ne_nil hne]
        exact fun h => htail (List.mem_of_getLast? h)
      rw [if_neg hlast, if_pos ⟨hhead, htail⟩, heq, Option.any_some, List.tail_cons,
        List.cons_append, percentLike_infix_iff htail, percentLike_suffix_iff htail]
      constructor
      · intro hin
        constructor
        · exact fun hsuffix h => h.2 hsuffix
        · exact fun h => not_not.1 fun hsuffix => h ⟨hin, hsuffix⟩
      · intro hiff
        by_contra hin
        exact hin (hiff.2 fun h => hin h.1).isInfix
    · have hlast : pattern.getLast? = some percent := by
        by_contra hlast
        rw [likeReadAs, if_neg hpct, if_neg hfront, if_neg hlast] at hread
        cases hread
      rw [if_pos hlast, likeReadAs, if_neg hpct, if_neg hfront, if_pos hlast, Option.any_some]
      simp

/-- A matching token by token strays on the patterns that do not end in `%`. -/
theorem strays_of_matcher (place : Place) {pattern text : Bytes} (hne : pattern ≠ [])
    (hlen : text.length ≤ 65536) (hread : likeReadAs pattern =
      if pattern.getLast? = some percent then some pattern else none) :
    place.matcher text pattern = true ↔
      (percentLike pattern text = true ↔ ¬ place.Strays pattern text) := by
  have hlonger : ∀ p : Bytes, p ++ [percent] ≠ p := fun p h => by
    have hlength := congrArg List.length h
    rw [List.length_append, List.length_singleton] at hlength
    omega
  have hpct : ¬ percent ∉ pattern := by
    intro hpct
    rw [likeReadAs, if_pos hpct] at hread
    split at hread
    · exact hlonger pattern (Option.some.inj hread)
    · cases hread
  unfold Place.Strays
  rw [if_neg hpct]
  by_cases hend : pattern.getLast? = some percent
  · rw [if_pos hend]
    have hmatch : place.matcher text pattern = percentLike pattern text := by
      cases place with
      | seqScan _ | hashJoin => exact matchPercentLikeToEnd_of_end hend text
      | filter | projection _ _ => exact matchPercentLikePattern_of_end hend text
    rw [hmatch]
    simp
  · have htail : ¬ (pattern.head? = some percent ∧ percent ∉ pattern.tail) := by
      rintro ⟨hhead, htail⟩
      obtain ⟨token, rfl⟩ : ∃ token, pattern = percent :: token :=
        ⟨pattern.tail, List.eq_cons_of_mem_head? hhead⟩
      have htoken : token ≠ [] := by
        rintro rfl
        exact hend rfl
      rw [likeReadAs, if_neg hpct, if_pos ⟨hhead, htail, htoken⟩, if_neg hend] at hread
      cases hread
    rw [if_neg hend, if_neg htail]
    cases place with
    | seqScan _ | hashJoin =>
      show matchPercentLikeToEnd text pattern = true ↔ _
      rw [matchPercentLikeToEnd_of_not_end hne hend, tokensEnd_iff hne hend]
      tauto
    | filter | projection _ _ =>
      show FilterProgram.matchPercentLikePattern text pattern = true ↔ _
      rw [matchPercentLikePattern_of_not_end hne hend hlen]
      simp

/-! ## The places run their steps -/

/-- A comparison that is lowered has a test. -/
theorem test_of_filters {L : Lowering} {c : Compare} {prog : Program}
    (h : L.filters [.compare c] = some prog) : ∃ t, L.test c = some t := by
  obtain ⟨⟨out, s⟩, hexpr, -⟩ := Option.bind_eq_some_iff.1 h
  rw [Lowering.boolExpr] at hexpr
  obtain ⟨t, ht, -⟩ := Option.bind_eq_some_iff.1 hexpr
  exact ⟨t, ht⟩

theorem buildLikeTest_of_const {T : TypeSupport} {schema : Schema} {negated : Bool} {col : Nat}
    {pattern : Bytes} {t : FilterTest InputRequest}
    (h : buildConst T schema (if negated then .notLike else .like) col (some pattern) = some t) :
    ∃ s, schema col = some s ∧ s.decodeKind = .stringRef ∧ buildLikeTest col pattern = some t := by
  obtain ⟨s, text, hs, htext, hconst⟩ := buildConst_spec h
  cases htext
  cases hconst with
  | like hkind hname hvalue => exact ⟨s, hs, hkind, hvalue⟩
  | date _ hop _ | int4 _ hop _ | char _ hop _ | int8 _ hop _ | numeric _ hop _ =>
    cases negated <;> cases hop
  | eq _ hname _ | ne _ hname _ => cases negated <;> cases hname

/-- **The test of a LIKE**: whichever side the pattern is on, the column is tested against it. -/
theorem compareTest_like {T : TypeSupport} {targetScale : ColumnSchema → ColumnSchema → Nat}
    {schema : Schema} {flip negated : Bool} {col : Nat} {pattern : Bytes}
    {t : FilterTest InputRequest}
    (h : compareTest T targetScale schema (likeCompare flip negated col pattern) = some t) :
    ∃ s op bytes, schema col = some s ∧ s.decodeKind = .stringRef ∧
      t = .stringConst op (.own col) bytes ∧
      buildLikeTest col pattern = some (.stringConst op (.own col) bytes) := by
  obtain ⟨t', ht', rfl⟩ : ∃ t', buildConst T schema (if negated then .notLike else .like) col
      (some pattern) = some t' ∧ t = orientTest flip (if negated then .notLike else .like) t' := by
    cases flip with
    | false => exact ⟨t, h, rfl⟩
    | true =>
      obtain ⟨t', ht', rfl⟩ := Option.map_eq_some_iff.1 h
      exact ⟨t', ht', rfl⟩
  obtain ⟨s, hs, hkind, hlike⟩ := buildLikeTest_of_const ht'
  obtain ⟨op, bytes, rfl, -, -⟩ := buildLikeTest_spec hlike
  exact ⟨s, op, bytes, hs, hkind, orientTest_stringConst flip _ op _ bytes, hlike⟩

/-- **What the test of a LIKE answers**: as a matching of the pattern, unless the step strays. -/
theorem evalString_like (place : Place) {E : Evaluator} (hE : E.matchPercentLike = place.matcher)
    {col : Nat} {pattern bytes : Bytes} {op : FilterProgram.StringTest} (row : Row)
    (h : buildLikeTest col pattern = some (.stringConst op (.own col) bytes)) (text : StoredString) :
    E.evalString op text.val bytes = true ↔
      (percentLike pattern text.val = true ↔ ¬ place.Strays pattern text.val) := by
  obtain ⟨op', bytes', heq, hshape, hspec⟩ := buildLikeTest_spec h
  cases heq
  rcases hshape with ⟨hop, hread⟩ | ⟨rfl, rfl, hne, hread⟩
  · have hsame : E.evalString op text.val bytes =
        (filterEvaluator row).evalString op text.val bytes := by
      rcases hop with rfl | rfl <;> rfl
    rw [hsame, hspec row text]
    exact strays_of_likeReadAs place hread text.val
  · show E.matchPercentLike text.val bytes = true ↔ _
    rw [hE]
    exact strays_of_matcher place hne text.property hread

section Filters

variable {L : Lowering} {T : TypeSupport} {targetScale : ColumnSchema → ColumnSchema → Nat}
  {schema : Schema} {row : Row} {flip negated : Bool} {col : Nat} {pattern : Bytes}
  {E : Evaluator} {prog : Program}

/-- A lowered LIKE by itself, over its test. -/
theorem twoValued_like (place : Place) (htest : L.test = compareTest T targetScale schema)
    (hE : E.matchPercentLike = place.matcher)
    (hnull : ∀ s, s.decodeKind = .stringRef → E.isNull (ownDesc col s) = false)
    (hstring : ∀ s, E.string (ownDesc col s) = (row.string col).value.val)
    (h : L.filters [.compare (likeCompare flip negated col pattern)] = some prog) :
    ∃ b : Bool, (b = true ↔ (percentLike pattern (row.string col).value.val = true ↔
        ¬ place.Strays pattern (row.string col).value.val)) ∧
      (if filterRegisters [.compare (likeCompare flip negated col pattern)] ≤ filterMaxBoolRegs then
        twoValuedFilters (L.reading schema E) [.compare (likeCompare flip negated col pattern)]
      else .error .outOfBounds) = .ok (b ^^ negated) := by
  obtain ⟨t, ht⟩ := test_of_filters h
  have ht' := ht
  rw [htest] at ht'
  obtain ⟨s, op, bytes, hs, hkind, rfl, hlike⟩ := compareTest_like ht'
  refine ⟨_, evalString_like place hE row hlike (row.string col).value, ?_⟩
  have hname : (likeCompare flip negated col pattern).name =
      if negated then .notLike else .like := constCompare_name flip _ col pattern
  have hregs : filterRegisters [.compare (likeCompare flip negated col pattern)] ≤
      filterMaxBoolRegs := by
    show (if (likeCompare flip negated col pattern).name = .notLike then 2 else 1) + 0 ≤ 64
    split <;> omega
  have htd : (FilterTest.stringConst op (.own col) bytes).lookup (requestDesc schema) =
      some (.stringConst op (ownDesc col s) bytes) := by
    rw [(FilterTest.lookup_one _ _).2.2, lookup_own hs]
    rfl
  have heval : E.evalTest (.stringConst op (ownDesc col s) bytes) =
      .ok (E.evalString op (row.string col).value.val bytes) := by
    show Except.ok (!E.isNull (ownDesc col s) && _) = _
    rw [hnull s hkind, hstring]
    rfl
  have hneg : ((likeCompare flip negated col pattern).name == .notLike) = negated := by
    rw [hname]
    cases negated <;> rfl
  rw [if_pos hregs, (twoValuedFilters_single _ _).1, reading_of_test ht htd, heval, hneg]
  rfl

end Filters

/-! ## The step of a projection -/

theorem take_constBytes {bytes : Bytes} (h : bytes.length ≤ 8) (step : ProjectStep)
    (hconst : step.constValue = packBytes bytes) :
    step.constBytes.take bytes.length = bytes := by
  have hlt : ByteMemory.decode bytes < 2 ^ 64 :=
    calc ByteMemory.decode bytes < 256 ^ bytes.length := ByteMemory.decode_lt bytes
      _ ≤ 256 ^ 8 := Nat.pow_le_pow_right (by decide) h
      _ = 2 ^ 64 := by decide
  rw [ProjectStep.constBytes, hconst, packBytes, UInt64.toUInt64_toInt64,
    UInt64.toNat_ofNat', Nat.mod_eq_of_lt hlt]
  exact ByteMemory.take_encode_decode h

/-- The packed bytes are a prefix test. -/
theorem stringPrefixMatches_eq {text : Bytes} (hlen : text.length ≤ 8) (step : ProjectStep)
    (hsize : step.inBChunkSlot = text.length) (hconst : step.constValue = packBytes text)
    (bytes : Bytes) : ProjectionTape.stringPrefixMatches step bytes = text.isPrefixOf bytes := by
  rw [ProjectionTape.stringPrefixMatches, hsize, take_constBytes hlen step hconst,
    Bool.eq_iff_iff, List.isPrefixOf_iff_prefix, Bool.and_eq_true, decide_eq_true_eq, beq_iff_eq]
  constructor
  · rintro ⟨-, htake⟩
    exact List.prefix_iff_eq_take.2 htake.symm
  · intro h
    exact ⟨h.length_le, (List.prefix_iff_eq_take.1 h).symm⟩

/-- **The step of a projection answers as the prefix test of a filter.** -/
theorem projectionAnswer_like {yearOf : Int32 → Int64} {schema : Schema} {row : Row}
    {flip negated : Bool} {col nextInt64Slot : Nat} {pattern : Bytes} {step : ProjectStep}
    (hnull : (row.string col).isNull = false)
    (h : lowerProjectionStringLike schema (likeCompare flip negated col pattern) nextInt64Slot =
      some step) :
    ∃ text : Bytes, flip = false ∧ negated = false ∧
      buildLikeTest col pattern = some (.stringConst .prefixLike (.own col) text) ∧
      projectionAnswer yearOf row step = some (text.isPrefixOf (row.string col).value.val) := by
  cases flip with
  | true => cases negated <;> cases h
  | false =>
    cases negated with
    | true => cases h
    | false =>
      obtain ⟨s, hs, h⟩ := Option.bind_eq_some_iff.1 h
      by_cases hkind : s.decodeKind ≠ .stringRef
      · rw [if_pos hkind] at h
        cases h
      · rw [if_neg hkind] at h
        obtain ⟨pattern', hpattern, h⟩ := Option.bind_eq_some_iff.1 h
        cases Option.some.inj hpattern
        obtain ⟨⟨isPrefix, text⟩, hpat, h⟩ := Option.bind_eq_some_iff.1 h
        dsimp only at h
        by_cases hrefused : (!isPrefix || decide (8 < text.length) ||
            decide (16 ≤ nextInt64Slot)) = true
        · rw [if_pos hrefused] at h
          cases h
        · rw [if_neg hrefused] at h
          cases h
          simp only [Bool.or_eq_true, Bool.not_eq_true', decide_eq_true_eq, not_or,
            Bool.not_eq_false, not_lt, not_le] at hrefused
          obtain ⟨⟨rfl, hlen⟩, -⟩ := hrefused
          refine ⟨text, rfl, rfl, by rw [buildLikeTest, hpat], ?_⟩
          have hcell : (projectionRow row).stringCell col = some (row.string col).value.val := by
            show (if (row.string col).isNull then none else some _) = _
            rw [hnull]
            rfl
          have hmatch := stringPrefixMatches_eq hlen
            ⟨.stringPrefixLike, col, text.length, nextInt64Slot, packBytes text⟩ rfl rfl
            (row.string col).value.val
          have hstep : ProjectionTape.stepInt64 yearOf
              ⟨.stringPrefixLike, col, text.length, nextInt64Slot, packBytes text⟩
              (projectionRow row) = .ok (some (boolInt64 (text.isPrefixOf
                (row.string col).value.val))) := by
            show Except.ok (((projectionRow row).stringCell col).map _) = _
            rw [hcell, Option.map_some, hmatch]
          have hop : ProjectionTape.ProjectOp.stringPrefixLike ≠ .stringPrefixSlice := by decide
          rw [projectionAnswer, ProjectionTape.execute_singleton,
            ProjectionTape.executeStep_eq hop hstep]
          show (((projectionRow row).setInt64 nextInt64Slot _).register nextInt64Slot).map _ = _
          rw [ProjectionTape.register_setInt64, Option.map_some]
          cases text.isPrefixOf (row.string col).value.val <;> rfl

/-! ## The answer of a place -/

/-- **What a place answers on a text**: as a matching with `%` as the only special character,
unless the step strays. -/
theorem answer_spec {place : Place} {T : TypeSupport} {schema : Schema} {row : Row}
    {flip negated : Bool} {col : Nat} {pattern : Bytes} (hnull : (row.string col).isNull = false)
    (h : (place.answer T schema row (likeCompare flip negated col pattern)).isSome) :
    ∃ b : Bool, (b = true ↔ (percentLike pattern (row.string col).value.val = true ↔
        ¬ place.Strays pattern (row.string col).value.val)) ∧
      place.answer T schema row (likeCompare flip negated col pattern) =
        some (some (b ^^ negated)) := by
  have hdesc : ∀ s : ColumnSchema, s.decodeKind = .stringRef →
      row.isNull (ownDesc col s).attno (ownDesc col s).sourceDecodeKind = false := by
    intro s hkind
    show row.isNull col s.decodeKind = false
    rw [hkind]
    exact hnull
  cases place with
  | seqScan scratch =>
    obtain ⟨prog, hprog⟩ := Option.isSome_iff_exists.1 ((Option.isSome_map ..).symm.trans h)
    obtain ⟨b, hb, hrun⟩ := twoValued_like (.seqScan scratch) (L := scanLowering T schema)
      (E := scanEvaluator scratch row) rfl rfl hdesc (fun _ => rfl) hprog
    refine ⟨b, hb, ?_⟩
    rw [Place.answer, hprog, Option.map_some,
      Lowering.executeScan_eq (scanLowering_sound T schema) _ hprog, hrun]
    rfl
  | filter =>
    obtain ⟨prog, hprog⟩ := Option.isSome_iff_exists.1 ((Option.isSome_map ..).symm.trans h)
    obtain ⟨b, hb, hrun⟩ := twoValued_like .filter (L := scanLowering T schema)
      (E := filterEvaluator row) rfl rfl hdesc (fun _ => rfl) hprog
    refine ⟨b, hb, ?_⟩
    rw [Place.answer, hprog, Option.map_some,
      Lowering.execute_eq (scanLowering_sound T schema) _ hprog, hrun]
    rfl
  | hashJoin =>
    obtain ⟨prog, hprog⟩ := Option.isSome_iff_exists.1 ((Option.isSome_map ..).symm.trans h)
    obtain ⟨b, hb, hrun⟩ := twoValued_like .hashJoin (L := joinLowering T schema)
      (E := joinEvaluator row) rfl rfl (fun _ _ => rfl) (fun _ => rfl) hprog
    refine ⟨b, hb, ?_⟩
    rw [Place.answer, hprog, Option.map_some,
      Lowering.executeJoin_eq (joinLowering_sound T schema) row hprog, hrun]
    rfl
  | projection nextInt64Slot yearOf =>
    obtain ⟨step, hstep⟩ := Option.isSome_iff_exists.1 ((Option.isSome_map ..).symm.trans h)
    obtain ⟨text, rfl, rfl, hlike, hrun⟩ := projectionAnswer_like hnull hstep
    refine ⟨_, evalString_like (.projection nextInt64Slot yearOf) (E := filterEvaluator row)
      rfl row hlike (row.string col).value, ?_⟩
    rw [Place.answer, hstep, Option.map_some, hrun, Bool.xor_false]
    rfl

/-- **A lowered LIKE gives the SQL result exactly where its step reads the pattern rightly.** -/
theorem likeAnswer_iff (place : Place) (T : TypeSupport) (schema : Schema) (row : Row)
    (flip negated : Bool) (col : Nat) (pattern : Bytes)
    (hnull : (row.string col).isNull = false)
    (h : (place.answer T schema row (likeCompare flip negated col pattern)).isSome) :
    place.answer T schema row (likeCompare flip negated col pattern) =
        some (some (likeValue flip negated pattern (row.string col).value.val)) ↔
      place.RightOn flip pattern (row.string col).value.val := by
  obtain ⟨b, hb, hrun⟩ := answer_spec hnull h
  have hvalue : likeValue flip negated pattern (row.string col).value.val =
      (likeValue flip false pattern (row.string col).value.val ^^ negated) := by
    rw [likeValue, likeValue, Bool.xor_false]
  rw [hrun, hvalue, Option.some.injEq, Option.some.injEq, Place.RightOn]
  generalize likeValue flip false pattern (row.string col).value.val = sql at *
  generalize percentLike pattern (row.string col).value.val = plain at *
  by_cases hstray : place.Strays pattern (row.string col).value.val
  · cases b <;> cases plain <;> cases sql <;> cases negated <;> simp_all
  · cases b <;> cases plain <;> cases sql <;> cases negated <;> simp_all

/-! ## A pattern without wildcards -/

/-- One column of type `text`. -/
def textSchema : Schema := fun col => if col = 1 then some ⟨25, -1, .stringRef, .left⟩ else none

/-- A row with `abc` in its columns. -/
def abcRow : Row where
  char _ := ⟨0, true⟩
  int32 _ := ⟨0, true⟩
  int64 _ := ⟨0, true⟩
  string _ := ⟨⟨[97, 98, 99], by decide⟩, false⟩

theorem likeAnswer_iff_prefix :
    Place.filter.answer decimalSupport textSchema abcRow (likeCompare false true 1 [97, percent]) =
        some (some (likeValue false true [97, percent] [97, 98, 99])) ↔
      Place.filter.RightOn false [97, percent] [97, 98, 99] :=
  likeAnswer_iff .filter decimalSupport textSchema abcRow false true 1 [97, percent] rfl
    (by decide)

/-- **`'abc' LIKE 'ab'` is true** in a filter. -/
theorem not_likeAnswer : ¬ ∀ (place : Place) (T : TypeSupport) (schema : Schema) (row : Row)
    (flip negated : Bool) (col : Nat) (pattern : Bytes), (row.string col).isNull = false →
      (place.answer T schema row (likeCompare flip negated col pattern)).isSome →
        place.answer T schema row (likeCompare flip negated col pattern) =
          some (some (likeValue flip negated pattern (row.string col).value.val)) := by
  intro hall
  have habc := hall .filter decimalSupport textSchema abcRow false false 1 [97, 98] rfl
    (by decide)
  revert habc
  decide

end LikeLowering
end PgYaap
