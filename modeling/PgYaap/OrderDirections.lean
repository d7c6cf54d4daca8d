import PgYaap.SqlLexemes

/-! # The directions of an ORDER BY, from the text

The direction of a sort key is not read off the parse tree. `ParseOrderDirections` looks for the
first `ORDER BY` in the upper-cased text, cuts the rest at the first `LIMIT` or else at the first
semicolon, splits it at the commas outside parentheses, and takes an item for descending when
` DESC` occurs in it.

Where the first `ORDER BY` is the outermost one and the items up to the last are cut as they are,
the directions are right exactly when ` DESC` occurs in the stretches of the descending items and in
no other (`parseOrderDirections_iff`). -/
namespace PgYaap
namespace OrderDirections

open SqlLexemes

/-! ## The scan -/

/-- `std::toupper` of every character. -/
def upper (text : List Char) : List Char := text.map Char.toUpper

/-- `std::string::find` from a position on. -/
def findFrom (pattern : List Char) : Nat → List Char → Option Nat
  | _, [] => none
  | 0, c :: text =>
    if pattern.isPrefixOf (c :: text) then some 0 else (findFrom pattern 0 text).map (· + 1)
  | pos + 1, _ :: text => (findFrom pattern pos text).map (· + 1)

def orderBy : List Char := "ORDER BY".toList

/-- `item_upper.find(" DESC") != npos`. -/
def mentionsDesc (item : List Char) : Bool := (findFrom " DESC".toList 0 (upper item)).isSome

/-- `end_pos`. -/
def endPos (sql : List Char) (orderPos : Nat) : Nat :=
  match findFrom "LIMIT".toList orderPos (upper sql) with
  | some pos => pos
  | none =>
    match findFrom [';'] orderPos sql with
    | some pos => pos
    | none => sql.length

/-- `clause`. -/
def clauseAt (sql : List Char) (orderPos : Nat) : List Char :=
  (sql.drop (orderPos + 8)).take (endPos sql orderPos - (orderPos + 8))

/-- The variables of the loop. -/
structure Scan where
  depth : Int
  itemIdx : Nat
  start : Nat
  out : List Bool

/-- The body of the loop. -/
def scanStep (clause : List Char) (i : Nat) (ch : Char) (s : Scan) : Scan :=
  if ch = '(' then { s with depth := s.depth + 1 }
  else if ch = ')' then { s with depth := s.depth - 1 }
  else if ch = ',' ∧ s.depth = 0 then
    let item := (clause.drop s.start).take (i - s.start)
    { s with
      out := if mentionsDesc item then s.out.set s.itemIdx false else s.out
      start := i + 1
      itemIdx := s.itemIdx + 1 }
  else s

/-- The loop from an index on, over the characters that are left. -/
def scan (clause : List Char) (nkeys : Nat) : Nat → List Char → Scan → Scan
  | _, [], s => s
  | i, ch :: rest, s =>
    if s.itemIdx < nkeys then scan clause nkeys (i + 1) rest (scanStep clause i ch s) else s

/-- `ParseOrderDirections`. A comma stands for the end of the clause. -/
def parseOrderDirections (sourceText : Option (List Char)) (nkeys : Nat) : List Bool :=
  let out := List.replicate nkeys true
  match sourceText with
  | none => out
  | some sql =>
    if nkeys = 0 then out
    else
      match findFrom orderBy 0 (upper sql) with
      | none => out
      | some orderPos =>
        let clause := clauseAt sql orderPos
        (scan clause nkeys 0 (clause ++ [',']) ⟨0, 0, 0, out⟩).out

/-! ## What is asked, and when it holds -/

/-- **The directions of the outermost list**, position by position; without such a list none, so
that every key keeps the ascending one. -/
def Extracts (sql : List Char) : Prop :=
  match outermostOrderBy (lex sql) with
  | some ob => parseOrderDirections (some sql) ob.items.length = ob.directions
  | none => ∀ nkeys, parseOrderDirections (some sql) nkeys = List.replicate nkeys true

/-- What stands before the first comma outside parentheses; the end closes it only where all
parentheses are closed. -/
def firstStretch : Int → List Char → Option (List Char)
  | depth, [] => if depth = 0 then some [] else none
  | depth, c :: rest =>
    if c = '(' then (firstStretch (depth + 1) rest).map (c :: ·)
    else if c = ')' then (firstStretch (depth - 1) rest).map (c :: ·)
    else if c = ',' ∧ depth = 0 then some []
    else (firstStretch depth rest).map (c :: ·)

/-- **A text that is read for what it is.** Without an outermost ORDER BY, nothing in it looks like
one. With one, nothing before it looks like one, a single blank stands between its words, and each
item before the last one is cut at the commas around it. -/
def Plain (sql : List Char) : Prop :=
  match outermostOrderBy (lex sql) with
  | some ob =>
    findFrom orderBy 0 (upper sql) = some (textOf ob.before).length ∧
      ob.leading <+: clauseAt sql (textOf ob.before).length ∧
      ∀ item ∈ ob.items.dropLast, firstStretch 0 (textOf item) = some (textOf item)
  | none => findFrom orderBy 0 (upper sql) = none

instance decidablePlain (sql : List Char) : Decidable (Plain sql) :=
  match h : outermostOrderBy (lex sql) with
  | some ob =>
    decidable_of_iff (findFrom orderBy 0 (upper sql) = some (textOf ob.before).length ∧
      ob.leading <+: clauseAt sql (textOf ob.before).length ∧
      ∀ item ∈ ob.items.dropLast, firstStretch 0 (textOf item) = some (textOf item))
      (by rw [Plain, h])
  | none => decidable_of_iff (findFrom orderBy 0 (upper sql) = none) (by rw [Plain, h])

/-- The stretches of text that the items are read from: the last one ends where the clause is cut
or at a comma. -/
def stretches (sql : List Char) (ob : OrderBy) : List (List Char) :=
  ob.items.dropLast.map textOf ++
    [(firstStretch 0 ((clauseAt sql (textOf ob.before).length).drop ob.leading.length)).getD []]

/-- **` DESC` occurs in the stretches of the descending items**, and in no other. -/
def MarksDescending (sql : List Char) : Prop :=
  match outermostOrderBy (lex sql) with
  | some ob => (stretches sql ob).map mentionsDesc = ob.items.map (descending 0)
  | none => True

instance decidableMarksDescending (sql : List Char) : Decidable (MarksDescending sql) :=
  match h : outermostOrderBy (lex sql) with
  | some ob =>
    decidable_of_iff ((stretches sql ob).map mentionsDesc = ob.items.map (descending 0))
      (by rw [MarksDescending, h])
  | none => isTrue (by rw [MarksDescending, h]; trivial)

/-! ## What the scan reads -/

section Reading

variable {clause : List Char} {nkeys : Nat}

theorem scan_cons {i : Nat} {ch : Char} {rest : List Char} {s : Scan} (h : s.itemIdx < nkeys) :
    scan clause nkeys i (ch :: rest) s =
      scan clause nkeys (i + 1) rest (scanStep clause i ch s) := if_pos h

/-- The loop ends with its last key. -/
theorem scan_done {i : Nat} {rest : List Char} {s : Scan} (h : nkeys ≤ s.itemIdx) :
    scan clause nkeys i rest s = s := by
  cases rest with
  | nil => rfl
  | cons ch rest => exact if_neg (by omega)

theorem firstStretch_cons (depth : Int) (c : Char) (rest : List Char) :
    firstStretch depth (c :: rest) =
      if c = ',' ∧ depth = 0 then some []
      else (firstStretch (depth + if c = '(' then 1 else if c = ')' then -1 else 0) rest).map
        (c :: ·) := by
  rw [firstStretch]
  by_cases hopen : c = '('
  · subst hopen
    rfl
  · by_cases hclose : c = ')'
    · subst hclose
      rfl
    · simp only [hopen, hclose, if_false, add_zero]

/-- What a step does that closes no item. -/
theorem scanStep_other (clause : List Char) (i : Nat) {c : Char} {s : Scan}
    (h : ¬(c = ',' ∧ s.depth = 0)) :
    scanStep clause i c s =
      { s with depth := s.depth + if c = '(' then 1 else if c = ')' then -1 else 0 } := by
  unfold scanStep
  split_ifs with hopen hclose
  · rfl
  · rfl
  · rw [add_zero]

/-- **One item.** The loop reads up to the end of the stretch, and the comma there closes the item
that has been begun. -/
theorem scan_stretch (clause acc : List Char) {t w : List Char} {i : Nat} {s : Scan}
    (hw : firstStretch s.depth t = some w) (hidx : s.itemIdx < nkeys)
    (hclause : clause.drop s.start = acc ++ t) (hi : i = s.start + acc.length) :
    ∃ rest, t ++ [','] = w ++ ',' :: rest ∧
      scan clause nkeys i (t ++ [',']) s = scan clause nkeys (i + w.length + 1) rest
        ⟨0, s.itemIdx + 1, i + w.length + 1,
          if mentionsDesc (acc ++ w) then s.out.set s.itemIdx false else s.out⟩ := by
  induction t generalizing acc i s w with
  | nil =>
    rw [firstStretch] at hw
    split_ifs at hw with hdepth
    obtain rfl := Option.some.inj hw
    refine ⟨[], rfl, ?_⟩
    have hitem : (clause.drop s.start).take (i - s.start) = acc := by
      rw [hclause, hi, Nat.add_sub_cancel_left, List.append_nil, List.take_length]
    show scan clause nkeys i [','] s = _
    rw [scan_cons hidx]
    simp only [scanStep, hdepth, hitem, List.append_nil, List.length_nil, Nat.add_zero]
    rfl
  | cons c t ih =>
    rw [firstStretch_cons] at hw
    by_cases hcomma : c = ',' ∧ s.depth = 0
    · -- the comma closes the item
      rw [if_pos hcomma] at hw
      obtain rfl := Option.some.inj hw
      obtain ⟨rfl, hdepth⟩ := hcomma
      refine ⟨t ++ [','], rfl, ?_⟩
      have hitem : (clause.drop s.start).take (i - s.start) = acc := by
        rw [hclause, hi, Nat.add_sub_cancel_left, List.take_left]
      show scan clause nkeys i (',' :: (t ++ [','])) s = _
      rw [scan_cons hidx]
      simp only [scanStep, hdepth, hitem, List.append_nil, List.length_nil, Nat.add_zero]
      rfl
    · rw [if_neg hcomma] at hw
      obtain ⟨w', hw', rfl⟩ := Option.map_eq_some_iff.1 hw
      have hstep := scanStep_other clause i hcomma
      obtain ⟨rest, hrest, hscan⟩ := ih (acc ++ [c]) (i := i + 1)
        (s := scanStep clause i c s) (by rw [hstep]; exact hw') (by rw [hstep]; exact hidx)
        (by rw [hstep, hclause, List.append_assoc]; rfl)
        (by rw [hstep, hi, List.length_append]; rfl)
      refine ⟨rest, by rw [List.cons_append, hrest]; rfl, ?_⟩
      show scan clause nkeys i (c :: (t ++ [','])) s = _
      rw [scan_cons hidx, hscan, hstep, List.append_assoc, List.length_cons,
        show i + 1 + w'.length + 1 = i + (w'.length + 1) + 1 by omega]
      rfl

/-- Where the clause ends inside parentheses, the item that has been begun is not closed. -/
theorem scan_open {t : List Char} {i : Nat} {s : Scan} (h : firstStretch s.depth t = none) :
    (scan clause nkeys i (t ++ [',']) s).out = s.out := by
  by_cases hidx : s.itemIdx < nkeys
  · induction t generalizing i s with
    | nil =>
      rw [firstStretch] at h
      split_ifs at h with hdepth
      show (scan clause nkeys i [','] s).out = _
      rw [scan_cons hidx, scanStep_other clause i fun hc => hdepth hc.2]
      rfl
    | cons c t ih =>
      rw [firstStretch_cons] at h
      by_cases hcomma : c = ',' ∧ s.depth = 0
      · rw [if_pos hcomma] at h
        cases h
      · rw [if_neg hcomma] at h
        have hstep := scanStep_other clause i hcomma
        show (scan clause nkeys i (c :: (t ++ [','])) s).out = _
        rw [scan_cons hidx, hstep]
        exact ih (Option.map_eq_none_iff.1 h) hidx
  · rw [scan_done (by omega)]

/-- What follows a stretch with a comma does not change it. -/
theorem firstStretch_append {depth : Int} {w : List Char} (h : firstStretch depth w = some w)
    (rest : List Char) : firstStretch depth (w ++ ',' :: rest) = some w := by
  induction w generalizing depth with
  | nil =>
    rw [firstStretch] at h
    split_ifs at h with hdepth
    rw [List.nil_append, firstStretch_cons, if_pos ⟨rfl, hdepth⟩]
  | cons c w ih =>
    rw [firstStretch_cons] at h
    by_cases hcomma : c = ',' ∧ depth = 0
    · rw [if_pos hcomma] at h
      cases h
    · rw [if_neg hcomma] at h
      obtain ⟨w', hw', heq⟩ := Option.map_eq_some_iff.1 h
      obtain rfl := (List.cons.inj heq).2
      rw [List.cons_append, firstStretch_cons, if_neg hcomma, ih hw']
      rfl

/-- A direction that is entered. -/
theorem enter_direction (front : List Bool) (k : Nat) (marked : Bool) :
    (if marked then (front ++ List.replicate (k + 1) true).set front.length false
      else front ++ List.replicate (k + 1) true) =
      (front ++ [!marked]) ++ List.replicate k true := by
  cases marked with
  | false => simp [List.replicate_succ]
  | true => simp [List.replicate_succ]

/-- **The whole list.** The items before the last one are read as they are, the last one up to the
end of its stretch. -/
theorem scan_items (earlier : List (List Char)) (before : List Char) (front : List Bool)
    {last : List Char}
    (hone : ∀ w ∈ earlier, firstStretch 0 w = some w)
    (hclause : clause = before ++ ((earlier.flatMap fun w => w ++ [',']) ++ last))
    (hkeys : nkeys = front.length + (earlier.length + 1)) :
    (scan clause nkeys before.length (((earlier.flatMap fun w => w ++ [',']) ++ last) ++ [','])
        ⟨0, front.length, before.length, front ++ List.replicate (earlier.length + 1) true⟩).out =
      front ++ (earlier ++ [(firstStretch 0 last).getD []]).map fun w => !mentionsDesc w := by
  induction earlier generalizing before front with
  | nil =>
    simp only [List.flatMap_nil, List.nil_append, List.length_nil, Nat.zero_add] at hclause hkeys ⊢
    cases hlast : firstStretch 0 last with
    | none =>
      rw [scan_open hlast]
      have hempty : mentionsDesc [] = false := by decide
      simp [hempty]
    | some w =>
      have hidx : (⟨0, front.length, before.length, front ++ [true]⟩ : Scan).itemIdx < nkeys := by
        show front.length < nkeys
        omega
      obtain ⟨rest, -, hscan⟩ := scan_stretch clause [] (i := before.length)
        hlast hidx (by rw [hclause]; exact List.drop_left) rfl
      have hdone : nkeys ≤ (⟨0, front.length + 1, before.length + w.length + 1,
          if mentionsDesc ([] ++ w) then (front ++ [true]).set front.length false
          else front ++ [true]⟩ : Scan).itemIdx := by
        show nkeys ≤ front.length + 1
        omega
      have henter := enter_direction front 0 (mentionsDesc w)
      refine (congrArg Scan.out (hscan.trans (scan_done hdone))).trans ?_
      simpa using henter
  | cons w earlier ih =>
    have hw := hone w List.mem_cons_self
    have htext : (((w :: earlier).flatMap fun w => w ++ [',']) ++ last) =
        w ++ ',' :: ((earlier.flatMap fun w => w ++ [',']) ++ last) := by
      rw [List.flatMap_cons]
      simp only [List.append_assoc, List.cons_append, List.nil_append]
    have hidx : (⟨0, front.length, before.length,
        front ++ List.replicate (earlier.length + 1 + 1) true⟩ : Scan).itemIdx < nkeys := by
      show front.length < nkeys
      rw [hkeys]
      omega
    obtain ⟨rest, hrest, hscan⟩ := scan_stretch clause [] (i := before.length)
      (firstStretch_append hw ((earlier.flatMap fun w => w ++ [',']) ++ last)) hidx
      (by rw [hclause, htext]; exact List.drop_left) rfl
    obtain rfl : ((earlier.flatMap fun w => w ++ [',']) ++ last) ++ [','] = rest := by
      rw [List.append_assoc, List.cons_append] at hrest
      exact (List.cons.inj (List.append_cancel_left hrest)).2
    have henter := enter_direction front (earlier.length + 1) (mentionsDesc w)
    have hrec := ih (before ++ (w ++ [','])) (front ++ [!mentionsDesc w])
      (fun v hv => hone v (List.mem_cons_of_mem _ hv))
      (by rw [hclause, htext]; simp only [List.append_assoc, List.cons_append, List.nil_append])
      (by rw [hkeys]; simp only [List.length_append, List.length_cons, List.length_nil]; omega)
    rw [htext, List.length_cons, hscan]
    simp only [List.nil_append]
    rw [henter]
    simp only [List.length_append, List.length_cons, List.length_nil] at hrec
    rw [show before.length + w.length + 1 = before.length + (w.length + (0 + 1)) by omega, hrec]
    simp only [List.append_assoc, List.cons_append, List.nil_append, List.map_cons, List.map_append]

end Reading

/-! ## Texts -/

section Texts

variable {sql : List Char}

/-- The directions of a text with an outermost ORDER BY that is read for what it is. -/
theorem parseOrderDirections_eq {ob : OrderBy} (hob : outermostOrderBy (lex sql) = some ob)
    (hplain : Plain sql) : parseOrderDirections (some sql) ob.items.length =
      (stretches sql ob).map fun w => !mentionsDesc w := by
  obtain ⟨-, -, -, hne⟩ := outermostOrderBy_text hob
  rw [Plain, hob] at hplain
  obtain ⟨hpos, ⟨last, hclause⟩, hone⟩ := hplain
  obtain ⟨k, hk⟩ : ∃ k, ob.items.length = k + 1 :=
    Nat.exists_eq_succ_of_ne_zero fun h => hne (List.length_eq_zero_iff.1 h)
  have hlength : (ob.items.dropLast.map textOf).length = k := by
    rw [List.length_map, List.length_dropLast, hk, Nat.add_sub_cancel]
  have hleading : ob.leading = (ob.items.dropLast.map textOf).flatMap fun w => w ++ [','] := by
    rw [OrderBy.leading, List.flatMap_map]
  have hscan := @scan_items (clauseAt sql (textOf ob.before).length) (k + 1)
    (ob.items.dropLast.map textOf) [] [] last
    (fun w hw => by
      obtain ⟨item, hitem, rfl⟩ := List.mem_map.1 hw
      exact hone item hitem)
    (by rw [← hleading, hclause]; rfl) (by rw [hlength, List.length_nil, Nat.zero_add])
  rw [← hleading, hclause, hlength] at hscan
  rw [parseOrderDirections, hk]
  simp only [hpos, Nat.succ_ne_zero, if_false]
  have hlast : (clauseAt sql (textOf ob.before).length).drop ob.leading.length = last := by
    rw [← hclause, List.drop_left]
  rw [stretches, hlast]
  exact hscan

/-- **When the directions are those of the query.** In a text that is read for what it is, exactly
when ` DESC` occurs in the stretches of the descending items and in no other. -/
theorem parseOrderDirections_iff (h : Plain sql) : Extracts sql ↔ MarksDescending sql := by
  rw [Extracts, MarksDescending]
  cases hob : outermostOrderBy (lex sql) with
  | none =>
    rw [Plain, hob] at h
    refine iff_of_true (fun nkeys => ?_) trivial
    simp only [parseOrderDirections, h, ite_self]
  | some ob =>
    have hnot : Function.Injective (List.map not) := List.map_injective_iff.2 Bool.not_injective
    have hread : (stretches sql ob).map (fun w => !mentionsDesc w) =
        ((stretches sql ob).map mentionsDesc).map not := by rw [List.map_map]; rfl
    have hasked : ob.directions = (ob.items.map (descending 0)).map not := by
      rw [List.map_map]; rfl
    simp only [parseOrderDirections_eq hob h]
    rw [hread, hasked]
    exact hnot.eq_iff

end Texts

/-! ## Two queries -/

/-- Two keys, the first one descending. -/
def firstDescending : List Char := "SELECT a FROM t ORDER BY a DESC, b".toList

theorem parseOrderDirections_iff_firstDescending : Extracts firstDescending := by
  have hplain : Plain firstDescending := by decide
  exact (parseOrderDirections_iff hplain).2 (by decide)

/-- A column whose name begins like the keyword. -/
def byDescription : List Char := "SELECT a, description FROM t ORDER BY a, description".toList

/-- The second key is taken for descending. -/
theorem not_extracts : ¬ Extracts byDescription := by
  intro h
  have hasked : (outermostOrderBy (lex byDescription)).map OrderBy.directions =
      some [true, true] := by decide
  have hread : parseOrderDirections (some byDescription) 2 = [true, false] := by decide
  rw [Extracts] at h
  cases hob : outermostOrderBy (lex byDescription) with
  | none =>
    rw [hob] at hasked
    cases hasked
  | some ob =>
    rw [hob] at h hasked
    have hdirections : ob.directions = [true, true] := Option.some.inj hasked
    have hlength : ob.items.length = 2 := by
      rw [← List.length_map (f := fun item => !descending 0 item)]
      exact congrArg List.length hdirections
    simp only [hlength, hdirections, hread] at h
    cases h

end OrderDirections
end PgYaap
