import PgYaap.BoundExpressions
import PgYaap.UnescapedText

/-! # When equal fingerprints have equal meaning

What a fingerprint leaves out (operator and aggregate oids, DISTINCT, the kind and the plan
of a subquery, whether a constant is NULL) must follow from what it writes down.
`fingerprintsExact_iff` says for which expressions this is so: those over a vocabulary that
is `Unambiguous`. That a fingerprint can be read back at all, although nothing in it is
escaped, rests on `UnescapedText`. -/
namespace PgYaap
namespace BoundExpressions

open LogicalPlan ExpressionFingerprints ExpressionEvaluation UnescapedText BoundExpression

variable {Plan : Type}

/-! ## Vocabularies -/

/-- What expressions are built from: columns, texts of constants, whether NULL occurs,
functions with their oid, aggregates with their oid and DISTINCT, subqueries. -/
structure Vocabulary (Plan : Type) where
  columns : Set ColumnBinding
  constants : Set String
  null : Prop
  functions : Set (String × Int)
  aggregates : Set (String × Int × Bool)
  subqueries : Set (String × Int × Plan)

variable (voc : Vocabulary Plan)

mutual

/-- An expression over a vocabulary. -/
def Over : BoundExpression Plan → Prop
  | columnRef binding => binding ∈ voc.columns
  | constant value isNull => if isNull then voc.null else value ∈ voc.constants
  | function functionName opOid children =>
    (functionName, opOid) ∈ voc.functions ∧ OverAll children
  | aggregate functionName aggOid isDistinct children =>
    (functionName, aggOid, isDistinct) ∈ voc.aggregates ∧ OverAll children
  | conjunction _ children => OverAll children
  | subquery sublinkType sublinkName subqueryPlan children =>
    (sublinkName, sublinkType, subqueryPlan) ∈ voc.subqueries ∧ OverAll children

def OverAll : List (BoundExpression Plan) → Prop
  | [] => True
  | e :: es => Over e ∧ OverAll es

end

/-- The beginnings of a fingerprint. -/
def heads : List (List Char) :=
  ["col:".toList, "const:".toList, "fn:".toList, "agg:".toList, "conj:".toList,
    "subquery:".toList, "opaque".toList]

/-- **Legible vocabularies**: names have no opening parenthesis, the texts of constants and
columns end where they seem to. -/
structure Vocabulary.Legible (column : ColumnBinding → String) : Prop where
  columns : ∀ binding ∈ voc.columns, LegibleFrom heads 0 (column binding).toList
  constants : ∀ value ∈ voc.constants, LegibleFrom heads 0 value.toList
  functions : ∀ f ∈ voc.functions, '(' ∉ f.1.toList
  aggregates : ∀ f ∈ voc.aggregates, '(' ∉ f.1.toList
  subqueries : ∀ f ∈ voc.subqueries, '(' ∉ f.1.toList

/-- **Unambiguous vocabularies**: what a fingerprint writes down decides what it leaves out.
A copy that tells aggregates and subqueries not apart wants none of them. -/
structure Vocabulary.Unambiguous (column : ColumnBinding → String) (writesAggregates : Bool) :
    Prop where
  columns : Set.InjOn column voc.columns
  null : voc.null → "NULL" ∉ voc.constants
  functions : Set.InjOn Prod.fst voc.functions
  aggregates : if writesAggregates then Set.InjOn Prod.fst voc.aggregates else voc.aggregates = ∅
  subqueries : if writesAggregates then Set.InjOn Prod.fst voc.subqueries else voc.subqueries = ∅

/-- **What a fingerprint is taken for**: equal fingerprints have equal meaning, and a list of
filters with a filter added unless its fingerprint is there has the truth of all of them. -/
structure FingerprintsExact (column : ColumnBinding → String) (writesAggregates : Bool) : Prop where
  sameMeaning : ∀ e e', Over voc e → Over voc e' →
    fingerprint column writesAggregates e = fingerprint column writesAggregates e' →
      SameMeaning e e'
  appendUnique : ∀ filters e, (∀ f ∈ filters, Over voc f) → Over voc e →
    (e ∈ appendUnique (fingerprint column writesAggregates) filters e ∨
      ∃ f ∈ filters, SameMeaning f e) ∧
    ∀ (V : Type) (M : Meaning Plan V) (row : Env V),
      filtersTruth M row (appendUnique (fingerprint column writesAggregates) filters e) =
        filtersTruth M row (filters ++ [e])

/-! ## The text of a fingerprint -/

section Text

variable (column : ColumnBinding → String) (writesAggregates : Bool)

/-- The characters of a fingerprint. -/
def chars (e : BoundExpression Plan) : List Char :=
  (fingerprint column writesAggregates e).toList

/-- The further arguments of a list. -/
def tailChars : List (BoundExpression Plan) → List Char
  | [] => []
  | e :: es => ',' :: (chars column writesAggregates e ++ tailChars es)

/-- The arguments of a list. -/
def argChars : List (BoundExpression Plan) → List Char
  | [] => []
  | e :: es => chars column writesAggregates e ++ tailChars column writesAggregates es

/-- The beginning of a fingerprint. -/
def head : BoundExpression Plan → String
  | columnRef _ => "col:"
  | constant _ _ => "const:"
  | function _ _ _ => "fn:"
  | aggregate _ _ _ _ => if writesAggregates then "agg:" else "opaque"
  | conjunction _ _ => "conj:"
  | subquery _ _ _ _ => if writesAggregates then "subquery:" else "opaque"

variable {column writesAggregates}

theorem toList_intercalate_fingerprints (es : List (BoundExpression Plan)) :
    (",".intercalate (fingerprintsWith column writesAggregates (forgetPlansList es))).toList =
      argChars column writesAggregates es := by
  have htail : ∀ (e : BoundExpression Plan) (es : List (BoundExpression Plan)),
      (",".intercalate (fingerprintWith column writesAggregates (forgetPlans e) ::
        fingerprintsWith column writesAggregates (forgetPlansList es))).toList =
          chars column writesAggregates e ++ tailChars column writesAggregates es := by
    intro e es
    induction es generalizing e with
    | nil =>
      rw [forgetPlansList, fingerprintsWith, String.intercalate_singleton, tailChars,
        List.append_nil]
      rfl
    | cons e' es ih =>
      rw [forgetPlansList, fingerprintsWith, String.intercalate_cons_cons, String.toList_append,
        String.toList_append, ih e', List.append_assoc]
      rfl
  cases es with
  | nil => rfl
  | cons e es => exact htail e es

theorem chars_columnRef (binding : ColumnBinding) :
    chars column writesAggregates (columnRef binding : BoundExpression Plan) =
      "col:".toList ++ (column binding).toList :=
  String.toList_append

theorem chars_constant (value : String) (isNull : Bool) :
    chars column writesAggregates (constant value isNull : BoundExpression Plan) =
      "const:".toList ++ (if isNull then "NULL" else value).toList :=
  String.toList_append

/-- A name and its arguments in parentheses. -/
theorem toList_call (begin name : String) (es : List (BoundExpression Plan)) :
    (begin ++ name ++ "(" ++
      ",".intercalate (fingerprintsWith column writesAggregates (forgetPlansList es)) ++
        ")").toList =
      begin.toList ++ (name.toList ++ '(' :: (argChars column writesAggregates es ++ [')'])) := by
  rw [String.toList_append, String.toList_append, String.toList_append, String.toList_append,
    toList_intercalate_fingerprints]
  simp

theorem chars_function (functionName : String) (opOid : Int) (es : List (BoundExpression Plan)) :
    chars column writesAggregates (function functionName opOid es) =
      "fn:".toList ++ (functionName.toList ++
        '(' :: (argChars column writesAggregates es ++ [')'])) :=
  toList_call "fn:" functionName es

theorem chars_conjunction (boolExprType : Int) (es : List (BoundExpression Plan)) :
    chars column writesAggregates (conjunction boolExprType es) =
      "conj:".toList ++ ((toString boolExprType).toList ++
        '(' :: (argChars column writesAggregates es ++ [')'])) :=
  toList_call "conj:" (toString boolExprType) es

theorem chars_aggregate (h : writesAggregates = true) (functionName : String) (aggOid : Int)
    (isDistinct : Bool) (es : List (BoundExpression Plan)) :
    chars column writesAggregates (aggregate functionName aggOid isDistinct es) =
      "agg:".toList ++ (functionName.toList ++
        '(' :: (argChars column writesAggregates es ++ [')'])) := by
  subst h
  exact toList_call "agg:" functionName es

theorem chars_subquery (h : writesAggregates = true) (sublinkType : Int) (sublinkName : String)
    (subqueryPlan : Plan) (es : List (BoundExpression Plan)) :
    chars column writesAggregates (subquery sublinkType sublinkName subqueryPlan es) =
      "subquery:".toList ++ (sublinkName.toList ++
        '(' :: (argChars column writesAggregates es ++ [')'])) := by
  subst h
  exact toList_call "subquery:" sublinkName es

end Text

/-! ## Reading a fingerprint -/

section Reading

variable {column : ColumnBinding → String} {writesAggregates : Bool} {voc}

theorem plainHeads : PlainHeads heads := ⟨by decide, by decide⟩

theorem head_mem (e : BoundExpression Plan) : (head writesAggregates e).toList ∈ heads := by
  cases writesAggregates with
  | true =>
    cases e with
    | columnRef | constant | function | aggregate | conjunction | subquery =>
      simp only [head, if_true]
      decide
  | false =>
    cases e with
    | columnRef | constant | function | aggregate | conjunction | subquery =>
      simp only [head, Bool.false_eq_true, if_false]
      decide

theorem chars_begins (e : BoundExpression Plan) (rest : List Char) :
    (head writesAggregates e).toList <+: chars column writesAggregates e ++ rest := by
  refine List.IsPrefix.trans ?_ (List.prefix_append _ rest)
  cases e with
  | columnRef binding => exact @chars_columnRef Plan column writesAggregates binding ▸ List.prefix_append _ _
  | constant value isNull =>
    exact @chars_constant Plan column writesAggregates value isNull ▸ List.prefix_append _ _
  | function functionName opOid es =>
    exact chars_function functionName opOid es ▸ List.prefix_append _ _
  | conjunction boolExprType es =>
    exact chars_conjunction boolExprType es ▸ List.prefix_append _ _
  | aggregate functionName aggOid isDistinct es =>
    cases writesAggregates with
    | true => exact chars_aggregate rfl functionName aggOid isDistinct es ▸ List.prefix_append _ _
    | false => exact List.prefix_refl _
  | subquery sublinkType sublinkName subqueryPlan es =>
    cases writesAggregates with
    | true =>
      exact chars_subquery rfl sublinkType sublinkName subqueryPlan es ▸ List.prefix_append _ _
    | false => exact List.prefix_refl _

theorem startsItem_chars (e : BoundExpression Plan) (rest : List Char) :
    StartsItem heads (chars column writesAggregates e ++ rest) :=
  ⟨_, head_mem e, chars_begins e rest⟩

theorem follows_tailChars (es : List (BoundExpression Plan)) (rest : List Char) :
    Follows heads (tailChars column writesAggregates es ++ ')' :: rest) := by
  cases es with
  | nil => exact .close rest
  | cons e es =>
    rw [tailChars, List.cons_append, List.append_assoc]
    exact .item (startsItem_chars e _)

/-- Two fingerprints that start one text have one beginning. -/
theorem head_eq {e e' : BoundExpression Plan} {rest rest' : List Char}
    (h : chars column writesAggregates e ++ rest = chars column writesAggregates e' ++ rest') :
    head writesAggregates e = head writesAggregates e' := by
  have hapart : ∀ text ∈ heads, ∀ text' ∈ heads, text <+: text' → text = text' := by decide
  have hbegins := @chars_begins Plan column writesAggregates e rest
  have hbegins' := @chars_begins Plan column writesAggregates e' rest'
  rw [h] at hbegins
  apply String.toList_inj.1
  rcases List.prefix_or_prefix_of_prefix hbegins hbegins' with hle | hle
  · exact hapart _ (head_mem e) _ (head_mem e') hle
  · exact (hapart _ (head_mem e') _ (head_mem e) hle).symm

/-- Two calls that start one text, after one beginning. -/
theorem call_inj {begin name name' args args' rest rest' : List Char}
    (hname : '(' ∉ name) (hname' : '(' ∉ name')
    (h : begin ++ (name ++ '(' :: (args ++ [')'])) ++ rest =
      begin ++ (name' ++ '(' :: (args' ++ [')'])) ++ rest') :
    name = name' ∧ args ++ ')' :: rest = args' ++ ')' :: rest' := by
  simp only [List.append_assoc, List.cons_append, List.nil_append,
    List.append_cancel_left_eq] at h
  exact append_mark_inj hname hname' h

theorem legible_constant (hlegible : voc.Legible column) {value : String} {isNull : Bool}
    (h : Over voc (constant value isNull)) :
    LegibleFrom heads 0 (if isNull then "NULL" else value).toList := by
  cases isNull with
  | true => exact (by decide : LegibleFrom heads 0 "NULL".toList)
  | false => exact hlegible.constants value h

/-- Constants with one text: two NULLs, or two equal values. -/
theorem sameMeaning_constant (h : voc.Unambiguous column writesAggregates)
    {value value' : String} {isNull isNull' : Bool} (he : Over voc (constant value isNull))
    (he' : Over voc (constant value' isNull'))
    (htext : (if isNull then "NULL" else value) = if isNull' then "NULL" else value') :
    SameMeaning (constant value isNull : BoundExpression Plan) (constant value' isNull') := by
  cases isNull with
  | true =>
    cases isNull' with
    | true => exact fun _ _ _ => rfl
    | false =>
      change "NULL" = value' at htext
      exact absurd (htext ▸ he') (h.null he)
  | false =>
    cases isNull' with
    | true =>
      change value = "NULL" at htext
      exact absurd (htext ▸ he) (h.null he')
    | false =>
      change value = value' at htext
      exact htext ▸ fun _ _ _ => rfl

/-- Where there is an aggregate, the copy writes aggregates. -/
theorem Vocabulary.Unambiguous.aggregate_injOn (h : voc.Unambiguous column writesAggregates)
    {f : String × Int × Bool} (hf : f ∈ voc.aggregates) :
    writesAggregates = true ∧ Set.InjOn Prod.fst voc.aggregates := by
  have haggregates := h.aggregates
  cases writesAggregates with
  | true => exact ⟨rfl, haggregates⟩
  | false =>
    change voc.aggregates = ∅ at haggregates
    exact absurd (haggregates ▸ hf) (Set.notMem_empty f)

theorem Vocabulary.Unambiguous.subquery_injOn (h : voc.Unambiguous column writesAggregates)
    {f : String × Int × Plan} (hf : f ∈ voc.subqueries) :
    writesAggregates = true ∧ Set.InjOn Prod.fst voc.subqueries := by
  have hsubqueries := h.subqueries
  cases writesAggregates with
  | true => exact ⟨rfl, hsubqueries⟩
  | false =>
    change voc.subqueries = ∅ at hsubqueries
    exact absurd (hsubqueries ▸ hf) (Set.notMem_empty f)

mutual

/-- **A fingerprint is read in one way**: what it stands for has one meaning. -/
theorem sameMeaning_of_chars (hlegible : voc.Legible column)
    (h : voc.Unambiguous column writesAggregates) (e e' : BoundExpression Plan)
    {rest rest' : List Char} (he : Over voc e) (he' : Over voc e') (hrest : Follows heads rest)
    (hrest' : Follows heads rest')
    (heq : chars column writesAggregates e ++ rest = chars column writesAggregates e' ++ rest') :
    SameMeaning e e' ∧ rest = rest' := by
  have hhead := head_eq heq
  cases e with
  | columnRef binding =>
    cases e' with
    | columnRef binding' =>
      rw [chars_columnRef, chars_columnRef, List.append_assoc, List.append_assoc,
        List.append_cancel_left_eq] at heq
      obtain ⟨htext, hrests⟩ := plainHeads.legibleFrom_append_inj (hlegible.columns _ he)
        (hlegible.columns _ he') hrest hrest' heq
      obtain rfl := h.columns he he' (String.toList_inj.1 htext)
      exact ⟨fun _ _ _ => rfl, hrests⟩
    | constant | function | conjunction => exact absurd hhead (by simp [head])
    | aggregate | subquery => exact absurd hhead (by cases writesAggregates <;> simp [head])
  | constant value isNull =>
    cases e' with
    | constant value' isNull' =>
      rw [chars_constant, chars_constant, List.append_assoc, List.append_assoc,
        List.append_cancel_left_eq] at heq
      obtain ⟨htext, hrests⟩ := plainHeads.legibleFrom_append_inj (legible_constant hlegible he)
        (legible_constant hlegible he') hrest hrest' heq
      exact ⟨sameMeaning_constant h he he' (String.toList_inj.1 htext), hrests⟩
    | columnRef | function | conjunction => exact absurd hhead (by simp [head])
    | aggregate | subquery => exact absurd hhead (by cases writesAggregates <;> simp [head])
  | function functionName opOid es =>
    cases e' with
    | function functionName' opOid' es' =>
      rw [chars_function, chars_function] at heq
      obtain ⟨hname, hargs⟩ := call_inj (hlegible.functions _ he.1) (hlegible.functions _ he'.1) heq
      obtain rfl := String.toList_inj.1 hname
      obtain ⟨hes, hrests⟩ := sameMeanings_of_argChars hlegible h es es' he.2 he'.2 hargs
      obtain ⟨-, rfl⟩ := Prod.mk.injEq .. ▸ h.functions he.1 he'.1 rfl
      exact ⟨fun V M row => congrArg (M.function functionName opOid) (hes V M row), hrests⟩
    | columnRef | constant | conjunction => exact absurd hhead (by simp [head])
    | aggregate | subquery => exact absurd hhead (by cases writesAggregates <;> simp [head])
  | conjunction boolExprType es =>
    cases e' with
    | conjunction boolExprType' es' =>
      rw [chars_conjunction, chars_conjunction] at heq
      obtain ⟨htype, hargs⟩ := call_inj (not_mem_toString_int rfl (by decide))
        (not_mem_toString_int rfl (by decide)) heq
      obtain rfl := Int.repr_injective (String.toList_inj.1 htype)
      obtain ⟨hes, hrests⟩ := sameMeanings_of_argChars hlegible h es es' he he' hargs
      refine ⟨fun V M row => ?_, hrests⟩
      rw [valueOf, valueOf, hes V M row]
    | columnRef | constant | function => exact absurd hhead (by simp [head])
    | aggregate | subquery => exact absurd hhead (by cases writesAggregates <;> simp [head])
  | aggregate functionName aggOid isDistinct es =>
    obtain ⟨hwrites, hinj⟩ := h.aggregate_injOn he.1
    cases e' with
    | aggregate functionName' aggOid' isDistinct' es' =>
      rw [chars_aggregate hwrites, chars_aggregate hwrites] at heq
      obtain ⟨hname, hargs⟩ := call_inj (hlegible.aggregates _ he.1) (hlegible.aggregates _ he'.1) heq
      obtain rfl := String.toList_inj.1 hname
      obtain ⟨hes, hrests⟩ := sameMeanings_of_argChars hlegible h es es' he.2 he'.2 hargs
      have hsame := hinj he.1 he'.1 rfl
      simp only [Prod.mk.injEq, true_and] at hsame
      obtain ⟨rfl, rfl⟩ := hsame
      refine ⟨fun V M row => ?_, hrests⟩
      exact congrFun (congrArg (M.aggregate functionName aggOid isDistinct)
        (funext fun row => hes V M row)) row
    | columnRef | constant | function | conjunction | subquery =>
      exact absurd hhead (by simp [head, hwrites])
  | subquery sublinkType sublinkName subqueryPlan es =>
    obtain ⟨hwrites, hinj⟩ := h.subquery_injOn he.1
    cases e' with
    | subquery sublinkType' sublinkName' subqueryPlan' es' =>
      rw [chars_subquery hwrites, chars_subquery hwrites] at heq
      obtain ⟨hname, hargs⟩ := call_inj (hlegible.subqueries _ he.1) (hlegible.subqueries _ he'.1) heq
      obtain rfl := String.toList_inj.1 hname
      obtain ⟨hes, hrests⟩ := sameMeanings_of_argChars hlegible h es es' he.2 he'.2 hargs
      have hsame := hinj he.1 he'.1 rfl
      simp only [Prod.mk.injEq, true_and] at hsame
      obtain ⟨rfl, rfl⟩ := hsame
      refine ⟨fun V M row => ?_, hrests⟩
      exact congrFun (congrArg (M.subquery sublinkType sublinkName subqueryPlan)
        (funext fun row => hes V M row)) row
    | columnRef | constant | function | conjunction | aggregate =>
      exact absurd hhead (by simp [head, hwrites])

/-- The arguments after the first. -/
theorem sameMeanings_of_tailChars (hlegible : voc.Legible column)
    (h : voc.Unambiguous column writesAggregates) (es es' : List (BoundExpression Plan))
    {rest rest' : List Char} (hes : OverAll voc es) (hes' : OverAll voc es')
    (heq : tailChars column writesAggregates es ++ ')' :: rest =
      tailChars column writesAggregates es' ++ ')' :: rest') :
    SameMeanings es es' ∧ rest = rest' := by
  cases es with
  | nil =>
    cases es' with
    | nil => exact ⟨.nil, (List.cons.inj heq).2⟩
    | cons e' es' => exact absurd (List.cons.inj heq).1 (by decide)
  | cons e es =>
    cases es' with
    | nil => exact absurd (List.cons.inj heq).1 (by decide)
    | cons e' es' =>
      rw [tailChars, tailChars, List.cons_append, List.cons_append, List.append_assoc,
        List.append_assoc] at heq
      obtain ⟨he, htail⟩ := sameMeaning_of_chars hlegible h e e' hes.1 hes'.1
        (follows_tailChars es rest) (follows_tailChars es' rest') (List.cons.inj heq).2
      obtain ⟨hes, hrest⟩ := sameMeanings_of_tailChars hlegible h es es' hes.2 hes'.2 htail
      exact ⟨.cons he hes, hrest⟩

/-- All arguments of a call. -/
theorem sameMeanings_of_argChars (hlegible : voc.Legible column)
    (h : voc.Unambiguous column writesAggregates) (es es' : List (BoundExpression Plan))
    {rest rest' : List Char} (hes : OverAll voc es) (hes' : OverAll voc es')
    (heq : argChars column writesAggregates es ++ ')' :: rest =
      argChars column writesAggregates es' ++ ')' :: rest') :
    SameMeanings es es' ∧ rest = rest' := by
  cases es with
  | nil =>
    cases es' with
    | nil => exact ⟨.nil, (List.cons.inj heq).2⟩
    | cons e' es' =>
      rw [argChars, argChars, List.nil_append, List.append_assoc] at heq
      exact absurd (heq ▸ startsItem_chars e' _) (plainHeads.not_startsItem_close rest)
  | cons e es =>
    cases es' with
    | nil =>
      rw [argChars, argChars, List.nil_append, List.append_assoc] at heq
      exact absurd (heq ▸ startsItem_chars e _) (plainHeads.not_startsItem_close rest')
    | cons e' es' =>
      rw [argChars, argChars, List.append_assoc, List.append_assoc] at heq
      obtain ⟨he, htail⟩ := sameMeaning_of_chars hlegible h e e' hes.1 hes'.1
        (follows_tailChars es rest) (follows_tailChars es' rest') heq
      obtain ⟨hes, hrest⟩ := sameMeanings_of_tailChars hlegible h es es' hes.2 hes'.2 htail
      exact ⟨.cons he hes, hrest⟩

end

end Reading

/-! ## What an exact fingerprint needs -/

section Needed

variable {column : ColumnBinding → String} {writesAggregates : Bool} {voc}

/-- Truth values; constants are true and nothing else has a value. -/
def onlyConstants (Plan : Type) : Meaning Plan Bool where
  constant _ := some true
  function _ _ _ := none
  aggregate _ _ _ _ _ := none
  subquery _ _ _ _ _ := none
  ofTruth t := t
  truth t := t
  truth_ofTruth _ := rfl

theorem FingerprintsExact.columns (h : FingerprintsExact voc column writesAggregates) :
    Set.InjOn column voc.columns := by
  intro b hb b' hb' htext
  have hsame := h.sameMeaning (columnRef b) (columnRef b') hb hb' (congrArg ("col:" ++ ·) htext)
  have hvalue := hsame Bool (onlyConstants Plan) fun x => some (x = b)
  change some (decide (b = b)) = some (decide (b' = b)) at hvalue
  rw [decide_eq_true rfl, Option.some.injEq, eq_comm, decide_eq_true_iff] at hvalue
  exact hvalue.symm

theorem FingerprintsExact.null (h : FingerprintsExact voc column writesAggregates)
    (hnull : voc.null) : "NULL" ∉ voc.constants := by
  intro hmem
  have hsame := h.sameMeaning (constant "NULL" true) (constant "NULL" false) hnull hmem rfl
  exact nomatch hsame Bool (onlyConstants Plan) fun _ => none

theorem FingerprintsExact.functions (h : FingerprintsExact voc column writesAggregates) :
    Set.InjOn Prod.fst voc.functions := by
  rintro ⟨name, oid⟩ hf ⟨_, oid'⟩ hf' rfl
  have hsame := h.sameMeaning (function name oid []) (function name oid' []) ⟨hf, trivial⟩
    ⟨hf', trivial⟩ rfl
  have hvalue := hsame Bool { onlyConstants Plan with
    function := fun _ opOid _ => some (opOid = oid) } fun _ => none
  change some (decide (oid = oid)) = some (decide (oid' = oid)) at hvalue
  rw [decide_eq_true rfl, Option.some.injEq, eq_comm, decide_eq_true_iff] at hvalue
  rw [hvalue]

theorem FingerprintsExact.aggregates (h : FingerprintsExact voc column writesAggregates) :
    if writesAggregates then Set.InjOn Prod.fst voc.aggregates else voc.aggregates = ∅ := by
  cases writesAggregates with
  | true =>
    rintro ⟨name, oid, isDistinct⟩ hf ⟨_, oid', isDistinct'⟩ hf' rfl
    have hsame := h.sameMeaning (aggregate name oid isDistinct [])
      (aggregate name oid' isDistinct' []) ⟨hf, trivial⟩ ⟨hf', trivial⟩ rfl
    have hvalue := hsame Bool { onlyConstants Plan with
      aggregate := fun _ aggOid distinct _ _ => some ((aggOid, distinct) = (oid, isDistinct)) }
      fun _ => none
    change some (decide ((oid, isDistinct) = (oid, isDistinct))) =
      some (decide ((oid', isDistinct') = (oid, isDistinct))) at hvalue
    rw [decide_eq_true rfl, Option.some.injEq, eq_comm, decide_eq_true_iff] at hvalue
    rw [hvalue]
  | false =>
    -- an aggregate of no argument and the same aggregate of an aggregate
    refine Set.eq_empty_iff_forall_notMem.2 ?_
    rintro ⟨name, oid, isDistinct⟩ hf
    have hsame := h.sameMeaning (aggregate name oid isDistinct [])
      (aggregate name oid isDistinct [aggregate name oid isDistinct []]) ⟨hf, trivial⟩
      ⟨hf, ⟨hf, trivial⟩, trivial⟩ rfl
    have hvalue := hsame Bool { onlyConstants Plan with
      aggregate := fun _ _ _ args row => some (args row).isEmpty } fun _ => none
    exact nomatch hvalue

theorem FingerprintsExact.subqueries (h : FingerprintsExact voc column writesAggregates) :
    if writesAggregates then Set.InjOn Prod.fst voc.subqueries else voc.subqueries = ∅ := by
  classical
  cases writesAggregates with
  | true =>
    rintro ⟨name, kind, plan⟩ hf ⟨_, kind', plan'⟩ hf' rfl
    have hsame := h.sameMeaning (subquery kind name plan []) (subquery kind' name plan' [])
      ⟨hf, trivial⟩ ⟨hf', trivial⟩ rfl
    have hvalue := hsame Bool { onlyConstants Plan with
      subquery := fun sublinkType _ subqueryPlan _ _ =>
        some ((sublinkType, subqueryPlan) = (kind, plan)) } fun _ => none
    change some (decide ((kind, plan) = (kind, plan))) =
      some (decide ((kind', plan') = (kind, plan))) at hvalue
    rw [decide_eq_true rfl, Option.some.injEq, eq_comm, decide_eq_true_iff] at hvalue
    rw [hvalue]
  | false =>
    refine Set.eq_empty_iff_forall_notMem.2 ?_
    rintro ⟨name, kind, plan⟩ hf
    have hsame := h.sameMeaning (subquery kind name plan [])
      (subquery kind name plan [subquery kind name plan []]) ⟨hf, trivial⟩
      ⟨hf, ⟨hf, trivial⟩, trivial⟩ rfl
    have hvalue := hsame Bool { onlyConstants Plan with
      subquery := fun _ _ _ args row => some (args row).isEmpty } fun _ => none
    exact nomatch hvalue

/-- Equal fingerprints of equal meaning make the deduplicated list exact. -/
theorem appendUnique_exact {fingerprintOf : BoundExpression Plan → String}
    {filters : List (BoundExpression Plan)} {e : BoundExpression Plan}
    (h : ∀ f ∈ filters, fingerprintOf f = fingerprintOf e → SameMeaning f e) :
    (e ∈ appendUnique fingerprintOf filters e ∨ ∃ f ∈ filters, SameMeaning f e) ∧
      ∀ (V : Type) (M : Meaning Plan V) (row : Env V),
        filtersTruth M row (appendUnique fingerprintOf filters e) =
          filtersTruth M row (filters ++ [e]) := by
  rw [appendUnique]
  by_cases hany : (filters.any fun existing => fingerprintOf existing = fingerprintOf e) = true
  · obtain ⟨f, hf, htext⟩ := List.any_eq_true.1 hany
    have hsame := h f hf (of_decide_eq_true htext)
    rw [if_pos hany]
    exact ⟨Or.inr ⟨f, hf, hsame⟩, fun V M row => (filtersTruth_append_of_mem hf hsame row).symm⟩
  · rw [if_neg hany]
    exact ⟨Or.inl (List.mem_append_right _ (List.mem_singleton_self e)), fun _ _ _ => rfl⟩

variable (voc) in
/-- **Fingerprints are exact** over the legible vocabularies that are unambiguous, and over
no others. -/
theorem fingerprintsExact_iff (column : ColumnBinding → String) (writesAggregates : Bool)
    (hlegible : voc.Legible column) :
    FingerprintsExact voc column writesAggregates ↔ voc.Unambiguous column writesAggregates := by
  constructor
  · exact fun h => ⟨h.columns, h.null, h.functions, h.aggregates, h.subqueries⟩
  · intro h
    have hsame : ∀ e e', Over voc e → Over voc e' →
        fingerprint column writesAggregates e = fingerprint column writesAggregates e' →
          SameMeaning e e' := by
      intro e e' he he' htext
      have hchars : chars column writesAggregates e ++ [] =
          chars column writesAggregates e' ++ [] := by
        rw [chars, htext]
        rfl
      exact (sameMeaning_of_chars hlegible h e e' he he' .nil .nil hchars).1
    exact ⟨hsame, fun filters e hfilters he => appendUnique_exact fun f hf =>
      hsame f e (hfilters f hf) he⟩

/-- A table index and a column index are legible, and no two columns share them. -/
theorem legibleFrom_bindingText (binding : ColumnBinding) :
    LegibleFrom heads 0 (bindingText binding).toList := by
  apply legibleFrom_of_plain
  intro c hc
  rw [bindingText, String.toList_append, String.toList_append, List.mem_append,
    List.mem_append] at hc
  rcases hc with (htable | hpoint) | hcolumn
  · exact plain_of_isDigit (isDigit_of_mem_toString htable)
  · obtain rfl : c = '.' := List.mem_singleton.1 hpoint
    decide
  · exact plain_of_isDigit (isDigit_of_mem_toString hcolumn)

/-- Names compared with one text, and counted. -/
def namesVocabulary : Vocabulary Unit where
  columns := {⟨0, 0⟩}
  constants := {"Smith, John (jr.)"}
  null := True
  functions := {("=", 98)}
  aggregates := {("count", 2147, false)}
  subqueries := ∅

theorem fingerprintsExact_iff_names :
    FingerprintsExact namesVocabulary bindingText true ↔
      namesVocabulary.Unambiguous bindingText true := by
  apply fingerprintsExact_iff
  refine ⟨fun binding _ => legibleFrom_bindingText binding, ?_, ?_, ?_, fun f hf => absurd hf id⟩
  · rintro _ rfl
    decide
  · rintro _ rfl
    decide
  · rintro _ rfl
    decide

/-- All expressions. -/
def everything : Vocabulary Unit := ⟨Set.univ, Set.univ, True, Set.univ, Set.univ, Set.univ⟩

/-- `name = 'NULL'`, or `name = NULL`. -/
def nameEquals (isNull : Bool) : BoundExpression Unit :=
  function "=" 98 [columnRef ⟨0, 0⟩, constant "NULL" isNull]

/-- With `name = 'NULL'` in the list, `name = NULL` is not added: on a row with that name the
list is true, and with both conditions it is unknown. -/
theorem not_fingerprintsExact : ¬ FingerprintsExact everything bindingText true := by
  intro h
  have hover : ∀ isNull, Over everything (nameEquals isNull) := by
    intro isNull
    refine ⟨trivial, trivial, ?_, trivial⟩
    cases isNull with
    | true => exact trivial
    | false => exact Set.mem_univ _
  obtain ⟨-, htruth⟩ := h.appendUnique [nameEquals false] (nameEquals true)
    (by rintro f hf; rw [List.mem_singleton.1 hf]; exact hover false) (hover true)
  have heq := htruth Bool { onlyConstants Unit with
    function := fun _ _ args => if none ∈ args then none else some true } fun _ => some true
  have happended : appendUnique (fingerprint bindingText true) [nameEquals false]
      (nameEquals true) = [nameEquals false] := by rfl
  rw [happended] at heq
  exact absurd heq (by decide)

end Needed

end BoundExpressions
end PgYaap
