import PgYaap.ExpressionFingerprints

/-! # Factoring the common conjuncts of a disjunction

`FactorCommonDisjunctConjuncts` turns `(a AND b) OR (a AND c)` into `a AND (b OR c)`. The
common conjuncts are counted by fingerprint, and as many of them as were counted are taken
over. -/
namespace PgYaap
namespace CommonConjuncts

open LogicalPlan Expression ExpressionFingerprints ExpressionEvaluation ThreeValuedLogic

/-! ## The pass -/

mutual

/-- `ExtractAndConjuncts`. -/
def extractAndConjuncts : Expression → List Expression
  | conjunction boolExprType children =>
    if boolExprType = 0 then extractAndConjunctsList children
    else [conjunction boolExprType children]
  | e => [e]

/-- The loop over the children. -/
def extractAndConjunctsList : List Expression → List Expression
  | [] => []
  | e :: es => extractAndConjuncts e ++ extractAndConjunctsList es

end

/-- `MakeConjunction`: nothing of nothing, one expression as it is. -/
def makeConjunction (boolExprType : Int) : List Expression → Option Expression
  | [] => none
  | [e] => some e
  | es => some (conjunction boolExprType es)

/-- `candidate_counts`: the fingerprints of the first branch that all others have. -/
def candidateFingerprints : List (List Expression) → List String
  | [] => []
  | first :: rest => (first.map joinPredicateFingerprint).dedup.filter fun fingerprint =>
    rest.all fun branch => branch.any fun e => joinPredicateFingerprint e = fingerprint

/-- The loop over one branch: a common conjunct is taken over while fewer were than there
are candidates, and left out of the branch in any case. -/
def splitBranch (candidates : List String) (common : List Expression) :
    List Expression → List Expression × List Expression
  | [] => (common, [])
  | e :: es =>
    if joinPredicateFingerprint e ∈ candidates then
      splitBranch candidates
        (if common.length < candidates.length then common ++ [e] else common) es
    else
      let (common, remaining) := splitBranch candidates common es
      (common, e :: remaining)

/-- The loop over the branches. It ends at the first branch of which nothing remains; then
there are no remainders. -/
def collectCommon (candidates : List String) (common : List Expression) :
    List (List Expression) → List Expression × Option (List (List Expression))
  | [] => (common, some [])
  | branch :: branches =>
    let (common, remaining) := splitBranch candidates common branch
    if remaining.isEmpty then (common, none)
    else
      let (common, remainders) := collectCommon candidates common branches
      (common, remainders.map (remaining :: ·))

/-- The OR of the branches, each an AND of its conjuncts, with the common ones in front. -/
def factorBranches (branches : List (List Expression)) : Option Expression :=
  let candidates := candidateFingerprints branches
  if candidates.isEmpty then do
    let rebuilt ← branches.mapM (makeConjunction 0)
    makeConjunction 1 rebuilt
  else
    match collectCommon candidates [] branches with
    | (common, none) => makeConjunction 0 common
    | (common, some remainders) => do
      let rebuilt ← remainders.mapM (makeConjunction 0)
      let disjunction ← makeConjunction 1 rebuilt
      makeConjunction 0 (common ++ [disjunction])

mutual

/-- `FactorCommonDisjunctConjuncts`. Where a branch has no conjunct at all the OR is returned
with its children moved out of it; this is `none` here. -/
def factorCommonDisjunctConjuncts : Expression → Option Expression
  | conjunction boolExprType children => do
    let children ← factorChildren children
    if boolExprType ≠ 1 ∨ children.length < 2 then return conjunction boolExprType children
    else
      let branches := children.map extractAndConjuncts
      if branches.any List.isEmpty then none
      else factorBranches branches
  | e => some e

/-- The loop over the children. -/
def factorChildren : List Expression → Option (List Expression)
  | [] => some []
  | e :: es => do
    let e ← factorCommonDisjunctConjuncts e
    let es ← factorChildren es
    return e :: es

end

/-! ## Truth -/

variable {V : Type} {I : Interpretation V} {row : Env V}

/-- The truth of a list of conjuncts. -/
def allTruth (I : Interpretation V) (row : Env V) (es : List Expression) : Truth :=
  allOf (es.map (truthOf I row))

theorem truthOf_conjunction (boolExprType : Int) (es : List Expression) :
    truthOf I row (conjunction boolExprType es) =
      connective boolExprType (es.map (truthOf I row)) := by
  rw [truthOf, value, I.truth_ofTruth, values_eq_map, List.map_map]
  rfl

theorem truthOf_and (es : List Expression) :
    truthOf I row (conjunction 0 es) = allTruth I row es :=
  truthOf_conjunction 0 es

theorem truthOf_or (es : List Expression) :
    truthOf I row (conjunction 1 es) = anyOf (es.map (truthOf I row)) :=
  truthOf_conjunction 1 es

mutual

theorem allTruth_extractAndConjuncts (e : Expression) :
    allTruth I row (extractAndConjuncts e) = truthOf I row e := by
  cases e with
  | conjunction boolExprType children =>
    rw [extractAndConjuncts]
    by_cases hand : boolExprType = 0
    · subst hand
      rw [if_pos rfl, truthOf_and, allTruth_extractAndConjunctsList children]
    · rw [if_neg hand]
      exact allOf_singleton _
  | columnRef binding => exact allOf_singleton _
  | constant v isNull => exact allOf_singleton _
  | function functionName opOid children => exact allOf_singleton _
  | aggregate functionName aggOid isDistinct children => exact allOf_singleton _
  | subquery sublinkType sublinkName children => exact allOf_singleton _
  | opaqueExpr => exact allOf_singleton _

theorem allTruth_extractAndConjunctsList (es : List Expression) :
    allTruth I row (extractAndConjunctsList es) = allTruth I row es := by
  cases es with
  | nil => rfl
  | cons e es =>
    have he := allTruth_extractAndConjuncts e
    have hes := allTruth_extractAndConjunctsList es
    rw [allTruth] at he hes
    have hcons := allOf_append [truthOf I row e] (es.map (truthOf I row))
    rw [allOf_singleton] at hcons
    rw [extractAndConjunctsList, allTruth, List.map_append, allOf_append, he, hes]
    exact hcons.symm

end

theorem truthOf_makeConjunction_and {es : List Expression} {e : Expression}
    (h : makeConjunction 0 es = some e) : truthOf I row e = allTruth I row es := by
  match es with
  | [] => cases h
  | [e'] =>
    cases h
    exact (allOf_singleton _).symm
  | e₁ :: e₂ :: es =>
    cases h
    exact truthOf_and _

theorem truthOf_makeConjunction_or (I : Interpretation V) (row : Env V) {es : List Expression}
    {e : Expression} (h : makeConjunction 1 es = some e) :
    truthOf I row e = anyOf (es.map (truthOf I row)) := by
  match es with
  | [] => cases h
  | [e'] =>
    cases h
    exact (anyOf_singleton _).symm
  | e₁ :: e₂ :: es =>
    cases h
    exact truthOf_or _

theorem makeConjunction_isSome (boolExprType : Int) {es : List Expression} (h : es ≠ []) :
    ∃ e, makeConjunction boolExprType es = some e := by
  match es with
  | [] => exact absurd rfl h
  | [e] => exact ⟨e, rfl⟩
  | e₁ :: e₂ :: es => exact ⟨_, rfl⟩

/-- Rebuilding the branches keeps their truth. -/
theorem mapM_makeConjunction (I : Interpretation V) (row : Env V)
    {branches : List (List Expression)}
    (h : ∀ branch ∈ branches, branch ≠ []) :
    ∃ rebuilt, branches.mapM (makeConjunction 0) = some rebuilt ∧
      rebuilt.map (truthOf I row) = branches.map (allTruth I row) := by
  induction branches with
  | nil => exact ⟨[], rfl, rfl⟩
  | cons branch branches ih =>
    obtain ⟨rebuilt, hrebuilt, htruth⟩ := ih fun b hb => h b (List.mem_cons_of_mem _ hb)
    obtain ⟨e, he⟩ := makeConjunction_isSome 0 (h branch List.mem_cons_self)
    refine ⟨e :: rebuilt, ?_, ?_⟩
    · rw [List.mapM_cons, he, hrebuilt]
      rfl
    · rw [List.map_cons, List.map_cons, htruth, truthOf_makeConjunction_and he]

/-! ## Taking over the common conjuncts -/

/-- Whether a conjunct is counted as common. -/
def counted (candidates : List String) (e : Expression) : Bool :=
  joinPredicateFingerprint e ∈ candidates

theorem splitBranch_eq (candidates : List String) (common es : List Expression) :
    splitBranch candidates common es =
      (common ++ (es.filter (counted candidates)).take (candidates.length - common.length),
        es.filter fun e => !counted candidates e) := by
  induction es generalizing common with
  | nil => simp [splitBranch]
  | cons e es ih =>
    rw [splitBranch]
    by_cases he : joinPredicateFingerprint e ∈ candidates
    · have hcounted : counted candidates e = true := decide_eq_true he
      rw [if_pos he, ih, List.filter_cons_of_pos hcounted,
        List.filter_cons_of_neg (by simp [hcounted])]
      by_cases hlt : common.length < candidates.length
      · rw [if_pos hlt, List.length_append, List.length_singleton, List.append_assoc]
        obtain ⟨n, hn⟩ : ∃ n, candidates.length - common.length = n + 1 :=
          Nat.exists_eq_succ_of_ne_zero (Nat.sub_ne_zero_of_lt hlt)
        rw [hn, List.take_succ_cons, show candidates.length - (common.length + 1) = n by omega]
        rfl
      · rw [if_neg hlt, Nat.sub_eq_zero_of_le (Nat.not_lt.1 hlt), List.take_zero, List.take_zero]
    · have hcounted : counted candidates e = false := decide_eq_false he
      rw [if_neg he, ih, List.filter_cons_of_neg (by simp [hcounted]),
        List.filter_cons_of_pos (by simp [hcounted])]

theorem splitBranch_of_full {candidates : List String} {common : List Expression}
    (h : candidates.length ≤ common.length) (es : List Expression) :
    splitBranch candidates common es = (common, es.filter fun e => !counted candidates e) := by
  rw [splitBranch_eq, Nat.sub_eq_zero_of_le h, List.take_zero, List.append_nil]

/-- Once all are taken over, the loop only strips the branches. -/
theorem collectCommon_of_full {candidates : List String} {common : List Expression}
    (h : candidates.length ≤ common.length) (branches : List (List Expression)) :
    (∃ branch ∈ branches, branch.all (counted candidates) ∧
        collectCommon candidates common branches = (common, none)) ∨
      (∀ branch ∈ branches, (branch.filter fun e => !counted candidates e) ≠ []) ∧
        collectCommon candidates common branches = (common,
          some (branches.map fun branch => branch.filter fun e => !counted candidates e)) := by
  induction branches with
  | nil => exact Or.inr ⟨nofun, rfl⟩
  | cons branch branches ih =>
    rw [collectCommon, splitBranch_of_full h]
    by_cases hnil : (branch.filter fun e => !counted candidates e) = []
    · refine Or.inl ⟨branch, List.mem_cons_self, ?_, by simp [hnil]⟩
      rw [List.all_eq_true]
      intro e he
      by_contra hnot
      have hmem : e ∈ branch.filter fun e => !counted candidates e :=
        List.mem_filter.2 ⟨he, by simpa using hnot⟩
      rw [hnil] at hmem
      exact absurd hmem List.not_mem_nil
    · have hisEmpty : (branch.filter fun e => !counted candidates e).isEmpty = false := by
        rw [List.isEmpty_eq_false_iff]
        exact hnil
      rcases ih with ⟨b, hb, hall, heq⟩ | ⟨hne, heq⟩
      · exact Or.inl ⟨b, List.mem_cons_of_mem _ hb, hall, by simp [hisEmpty, heq]⟩
      · refine Or.inr ⟨?_, by simp [hisEmpty, heq]⟩
        intro b hb
        rcases List.mem_cons.1 hb with rfl | hb
        · exact hnil
        · exact hne b hb

/-! ## Candidates -/

theorem mem_candidateFingerprints {first : List Expression} {rest : List (List Expression)}
    {fingerprint : String} :
    fingerprint ∈ candidateFingerprints (first :: rest) ↔
      ∀ branch ∈ first :: rest, ∃ e ∈ branch, joinPredicateFingerprint e = fingerprint := by
  simp [candidateFingerprints]

theorem nodup_candidateFingerprints (branches : List (List Expression)) :
    (candidateFingerprints branches).Nodup := by
  cases branches with
  | nil => exact List.nodup_nil
  | cons first rest => exact (List.nodup_dedup _).filter _

/-- What is taken over from the first branch. -/
def takenOver (branches : List (List Expression)) : List Expression :=
  ((branches.headD []).filter (counted (candidateFingerprints branches))).take
    (candidateFingerprints branches).length

/-- **The branches of an OR are counted right** on a row: every branch has a conjunct, the
common conjuncts with one fingerprint have one truth, and the conjuncts that are taken over
have different fingerprints. -/
structure CountedRight (I : Interpretation V) (row : Env V) (branches : List (List Expression)) :
    Prop where
  nonempty : ∀ branch ∈ branches, branch ≠ []
  faithful : ∀ branch ∈ branches, ∀ e ∈ branch, ∀ branch' ∈ branches, ∀ e' ∈ branch',
    joinPredicateFingerprint e = joinPredicateFingerprint e' →
    joinPredicateFingerprint e ∈ candidateFingerprints branches →
      truthOf I row e = truthOf I row e'
  distinct : ((takenOver branches).map joinPredicateFingerprint).Nodup

section Branches

variable {first : List Expression} {rest : List (List Expression)}

/-- The first branch has a conjunct for every candidate. -/
theorem length_takenOver :
    (takenOver (first :: rest)).length = (candidateFingerprints (first :: rest)).length := by
  have hsubset : candidateFingerprints (first :: rest) ⊆
      (first.filter (counted (candidateFingerprints (first :: rest)))).map
        joinPredicateFingerprint := by
    intro fingerprint hf
    obtain ⟨e, he, rfl⟩ := mem_candidateFingerprints.1 hf first List.mem_cons_self
    exact List.mem_map_of_mem (List.mem_filter.2 ⟨he, decide_eq_true hf⟩)
  have hle := (List.subperm_of_subset (nodup_candidateFingerprints _) hsubset).length_le
  rw [List.length_map] at hle
  rw [takenOver, List.headD_cons, List.length_take, Nat.min_eq_left hle]

theorem mem_takenOver {e : Expression} (h : e ∈ takenOver (first :: rest)) :
    e ∈ first ∧ joinPredicateFingerprint e ∈ candidateFingerprints (first :: rest) := by
  obtain ⟨hmem, hcounted⟩ := List.mem_filter.1 (List.mem_of_mem_take h)
  exact ⟨hmem, of_decide_eq_true hcounted⟩

/-- Counted right, every candidate is taken over. -/
theorem CountedRight.exists_takenOver (h : CountedRight I row (first :: rest))
    {fingerprint : String} (hf : fingerprint ∈ candidateFingerprints (first :: rest)) :
    ∃ e ∈ takenOver (first :: rest), joinPredicateFingerprint e = fingerprint := by
  have hsubset : (takenOver (first :: rest)).map joinPredicateFingerprint ⊆
      candidateFingerprints (first :: rest) := by
    intro f hf
    obtain ⟨e, he, rfl⟩ := List.mem_map.1 hf
    exact (mem_takenOver he).2
  have hperm := (List.subperm_of_subset h.distinct hsubset).perm_of_length_le
    (by rw [List.length_map, length_takenOver])
  exact List.mem_map.1 (hperm.mem_iff.2 hf)

/-- A common conjunct of any branch and the one taken over for it have one truth. -/
theorem CountedRight.truth_eq (h : CountedRight I row (first :: rest)) {branch : List Expression}
    (hbranch : branch ∈ first :: rest) {e : Expression} (he : e ∈ branch)
    {c : Expression} (hc : c ∈ takenOver (first :: rest))
    (heq : joinPredicateFingerprint c = joinPredicateFingerprint e) :
    truthOf I row c = truthOf I row e :=
  h.faithful first List.mem_cons_self c (mem_takenOver hc).1 branch hbranch e he heq
    (mem_takenOver hc).2

/-- The loop over all branches takes over the common conjuncts of the first one. -/
theorem collectCommon_eq :
    (∃ branch ∈ first :: rest, branch.all (counted (candidateFingerprints (first :: rest))) ∧
        collectCommon (candidateFingerprints (first :: rest)) [] (first :: rest) =
          (takenOver (first :: rest), none)) ∨
      (∀ branch ∈ first :: rest,
        (branch.filter fun e => !counted (candidateFingerprints (first :: rest)) e) ≠ []) ∧
        collectCommon (candidateFingerprints (first :: rest)) [] (first :: rest) =
          (takenOver (first :: rest), some ((first :: rest).map fun branch =>
            branch.filter fun e => !counted (candidateFingerprints (first :: rest)) e)) := by
  have hlength := @length_takenOver first rest
  have htaken : splitBranch (candidateFingerprints (first :: rest)) [] first =
      splitBranch (candidateFingerprints (first :: rest)) (takenOver (first :: rest)) first := by
    rw [splitBranch_of_full hlength.ge, splitBranch_eq]
    rfl
  have hfull := collectCommon_of_full hlength.ge (first :: rest)
  rw [collectCommon] at hfull ⊢
  rw [htaken]
  exact hfull

/-- The AND of what is common is decided by what is taken over. -/
theorem CountedRight.takenOver_true (h : CountedRight I row (first :: rest))
    {branch : List Expression} (hbranch : branch ∈ first :: rest)
    (hall : ∀ c ∈ takenOver (first :: rest), truthOf I row c = some true) {e : Expression}
    (he : e ∈ branch)
    (hcounted : counted (candidateFingerprints (first :: rest)) e = true) :
    truthOf I row e = some true := by
  obtain ⟨c, hc, heq⟩ := h.exists_takenOver (of_decide_eq_true hcounted)
  rw [← h.truth_eq hbranch he hc heq]
  exact hall c hc

/-- A branch has a conjunct with the truth of each one that is taken over. -/
theorem CountedRight.exists_in_branch (h : CountedRight I row (first :: rest))
    {branch : List Expression} (hbranch : branch ∈ first :: rest) {c : Expression}
    (hc : c ∈ takenOver (first :: rest)) : ∃ e ∈ branch, truthOf I row e = truthOf I row c := by
  obtain ⟨e, he, heq⟩ := mem_candidateFingerprints.1 (mem_takenOver hc).2 branch hbranch
  exact ⟨e, he, (h.truth_eq hbranch he hc heq.symm).symm⟩

/-- What is taken over is true with some branch, and false only with all of them. -/
theorem CountedRight.all_true_iff (h : CountedRight I row (first :: rest)) :
    ((∀ c ∈ takenOver (first :: rest), truthOf I row c = some true) ∧
      ∃ branch ∈ first :: rest, ∀ e ∈ branch,
        counted (candidateFingerprints (first :: rest)) e = false → truthOf I row e = some true) ↔
      ∃ branch ∈ first :: rest, ∀ e ∈ branch, truthOf I row e = some true := by
  constructor
  · rintro ⟨hall, branch, hbranch, hrest⟩
    refine ⟨branch, hbranch, fun e he => ?_⟩
    cases hcounted : counted (candidateFingerprints (first :: rest)) e with
    | true => exact h.takenOver_true hbranch hall he hcounted
    | false => exact hrest e he hcounted
  · rintro ⟨branch, hbranch, hall⟩
    refine ⟨fun c hc => ?_, branch, hbranch, fun e he _ => hall e he⟩
    obtain ⟨e, he, heq⟩ := h.exists_in_branch hbranch hc
    rw [← heq]
    exact hall e he

theorem CountedRight.some_false_iff (h : CountedRight I row (first :: rest)) :
    ((∃ c ∈ takenOver (first :: rest), truthOf I row c = some false) ∨
      ∀ branch ∈ first :: rest, ∃ e ∈ branch,
        counted (candidateFingerprints (first :: rest)) e = false ∧
          truthOf I row e = some false) ↔
      ∀ branch ∈ first :: rest, ∃ e ∈ branch, truthOf I row e = some false := by
  constructor
  · rintro (⟨c, hc, hfalse⟩ | hrest)
    · intro branch hbranch
      obtain ⟨e, he, heq⟩ := h.exists_in_branch hbranch hc
      exact ⟨e, he, heq.trans hfalse⟩
    · intro branch hbranch
      obtain ⟨e, he, -, hfalse⟩ := hrest branch hbranch
      exact ⟨e, he, hfalse⟩
  · intro hall
    by_cases hcommon : ∃ c ∈ takenOver (first :: rest), truthOf I row c = some false
    · exact Or.inl hcommon
    · refine Or.inr fun branch hbranch => ?_
      obtain ⟨e, he, hfalse⟩ := hall branch hbranch
      refine ⟨e, he, ?_, hfalse⟩
      by_contra hcounted
      rw [Bool.not_eq_false] at hcounted
      obtain ⟨c, hc, heq⟩ := h.exists_takenOver (of_decide_eq_true hcounted)
      exact hcommon ⟨c, hc, (h.truth_eq hbranch he hc heq).trans hfalse⟩

end Branches

/-! ## The truth of the factored OR -/

theorem allTruth_eq_true {es : List Expression} :
    allTruth I row es = some true ↔ ∀ e ∈ es, truthOf I row e = some true := by
  rw [allTruth, allOf_eq_true, List.forall_mem_map]

theorem allTruth_eq_false {es : List Expression} :
    allTruth I row es = some false ↔ ∃ e ∈ es, truthOf I row e = some false := by
  rw [allTruth, allOf_eq_false, List.mem_map]

theorem anyOf_branches_eq_true {branches : List (List Expression)} :
    anyOf (branches.map (allTruth I row)) = some true ↔
      ∃ branch ∈ branches, ∀ e ∈ branch, truthOf I row e = some true := by
  rw [anyOf_eq_true, List.mem_map]
  simp only [allTruth_eq_true]

theorem anyOf_branches_eq_false {branches : List (List Expression)} :
    anyOf (branches.map (allTruth I row)) = some false ↔
      ∀ branch ∈ branches, ∃ e ∈ branch, truthOf I row e = some false := by
  rw [anyOf_eq_false, List.forall_mem_map]
  simp only [allTruth_eq_false]

/-- **One OR**, its branches counted right, keeps its truth. -/
theorem factorBranches_truth {branches : List (List Expression)} (hne : branches ≠ [])
    (h : CountedRight I row branches) :
    ∃ e, factorBranches branches = some e ∧
      truthOf I row e = anyOf (branches.map (allTruth I row)) := by
  obtain ⟨first, rest, rfl⟩ := List.exists_cons_of_ne_nil hne
  have hlength := @length_takenOver first rest
  rw [factorBranches]
  by_cases hempty : (candidateFingerprints (first :: rest)).isEmpty = true
  · obtain ⟨rebuilt, hrebuilt, htruth⟩ := mapM_makeConjunction I row h.nonempty
    have hsome : rebuilt ≠ [] := by
      rintro rfl
      cases htruth
    obtain ⟨e, he⟩ := makeConjunction_isSome 1 hsome
    refine ⟨e, ?_, ?_⟩
    · rw [if_pos hempty, hrebuilt]
      exact he
    · rw [truthOf_makeConjunction_or I row he, htruth]
  · have hcommon : takenOver (first :: rest) ≠ [] := by
      intro hnil
      rw [hnil, List.length_nil, eq_comm, List.length_eq_zero_iff] at hlength
      exact hempty (List.isEmpty_iff.2 hlength)
    rw [if_neg hempty]
    rcases @collectCommon_eq first rest with ⟨branch, hbranch, hall, heq⟩ | ⟨hremains, heq⟩
    · -- one branch is made up of common conjuncts only
      obtain ⟨e, he⟩ := makeConjunction_isSome 0 hcommon
      rw [List.all_eq_true] at hall
      refine ⟨e, by rw [heq]; exact he, ?_⟩
      rw [truthOf_makeConjunction_and he]
      apply truth_ext
      · rw [allTruth_eq_true, anyOf_branches_eq_true, ← h.all_true_iff, iff_self_and]
        intro _
        exact ⟨branch, hbranch, fun e he hnot => absurd (hall e he) (by simp [hnot])⟩
      · rw [allTruth_eq_false, anyOf_branches_eq_false, ← h.some_false_iff, or_iff_left]
        intro hrest
        obtain ⟨e, he, hnot, -⟩ := hrest branch hbranch
        exact absurd (hall e he) (by simp [hnot])
    · obtain ⟨rebuilt, hrebuilt, htruth⟩ := mapM_makeConjunction I row
        (List.forall_mem_map.2 hremains)
      have hsome : rebuilt ≠ [] := by
        rintro rfl
        cases htruth
      obtain ⟨d, hd⟩ := makeConjunction_isSome 1 hsome
      obtain ⟨e, he⟩ := makeConjunction_isSome 0
        (List.append_ne_nil_of_left_ne_nil hcommon [d])
      have hdtruth := truthOf_makeConjunction_or I row hd
      rw [htruth] at hdtruth
      refine ⟨e, ?_, ?_⟩
      · rw [heq]
        simp only [hrebuilt, Option.bind_eq_bind, Option.bind_some, hd]
        exact he
      · rw [truthOf_makeConjunction_and he]
        apply truth_ext
        · rw [allTruth_eq_true, anyOf_branches_eq_true, ← h.all_true_iff,
            List.forall_mem_append, List.forall_mem_singleton, hdtruth, anyOf_branches_eq_true]
          simp
        · rw [allTruth_eq_false, anyOf_branches_eq_false, ← h.some_false_iff]
          simp only [List.mem_append, List.mem_singleton, or_and_right, exists_or,
            exists_eq_left, hdtruth, anyOf_branches_eq_false]
          simp [and_assoc]

/-! ## The whole pass -/

mutual

/-- Every OR that the pass meets, its children factored already, is counted right. -/
def AllCountedRight (I : Interpretation V) (row : Env V) : Expression → Prop
  | conjunction boolExprType children => ChildrenCountedRight I row children ∧
    ∀ factored, factorChildren children = some factored → boolExprType = 1 →
      2 ≤ factored.length → CountedRight I row (factored.map extractAndConjuncts)
  | _ => True

/-- The same below every child. -/
def ChildrenCountedRight (I : Interpretation V) (row : Env V) : List Expression → Prop
  | [] => True
  | e :: es => AllCountedRight I row e ∧ ChildrenCountedRight I row es

end

mutual

/-- **Factoring keeps the truth value** when every OR is counted right. -/
theorem factorCommonDisjunctConjuncts_truth (I : Interpretation V) (row : Env V) (e : Expression)
    (h : AllCountedRight I row e) :
    ∃ factored, factorCommonDisjunctConjuncts e = some factored ∧
      truthOf I row factored = truthOf I row e := by
  cases e with
  | conjunction boolExprType children =>
    obtain ⟨hchildren, hor⟩ := h
    obtain ⟨factored, hfactored, htruth⟩ := factorChildren_truth I row children hchildren
    rw [factorCommonDisjunctConjuncts, hfactored, Option.bind_eq_bind, Option.bind_some]
    by_cases hkeep : boolExprType ≠ 1 ∨ factored.length < 2
    · refine ⟨conjunction boolExprType factored, if_pos hkeep, ?_⟩
      rw [truthOf_conjunction, truthOf_conjunction, htruth]
    · rw [if_neg hkeep]
      rw [not_or, not_ne_iff, Nat.not_lt] at hkeep
      obtain ⟨rfl, hlength⟩ := hkeep
      have hcounted := hor factored hfactored rfl hlength
      have hnone : ¬ ((factored.map extractAndConjuncts).any List.isEmpty) = true := by
        intro hany
        obtain ⟨branch, hbranch, hempty⟩ := List.any_eq_true.1 hany
        exact hcounted.nonempty branch hbranch (List.isEmpty_iff.1 hempty)
      have hne : factored.map extractAndConjuncts ≠ [] := by
        intro hnil
        rw [List.map_eq_nil_iff] at hnil
        rw [hnil] at hlength
        exact absurd hlength (by decide)
      obtain ⟨e, he, hetruth⟩ := factorBranches_truth hne hcounted
      refine ⟨e, by rw [if_neg hnone, he], ?_⟩
      rw [hetruth, List.map_map, truthOf_or, ← htruth]
      exact congrArg anyOf (List.map_congr_left fun c _ => allTruth_extractAndConjuncts c)
  | columnRef binding => exact ⟨_, rfl, rfl⟩
  | constant v isNull => exact ⟨_, rfl, rfl⟩
  | function functionName opOid children => exact ⟨_, rfl, rfl⟩
  | aggregate functionName aggOid isDistinct children => exact ⟨_, rfl, rfl⟩
  | subquery sublinkType sublinkName children => exact ⟨_, rfl, rfl⟩
  | opaqueExpr => exact ⟨_, rfl, rfl⟩

theorem factorChildren_truth (I : Interpretation V) (row : Env V) (es : List Expression)
    (h : ChildrenCountedRight I row es) :
    ∃ factored, factorChildren es = some factored ∧
      factored.map (truthOf I row) = es.map (truthOf I row) := by
  cases es with
  | nil => exact ⟨[], rfl, rfl⟩
  | cons e es =>
    obtain ⟨e', he', hetruth⟩ := factorCommonDisjunctConjuncts_truth I row e h.1
    obtain ⟨es', hes', hestruth⟩ := factorChildren_truth I row es h.2
    refine ⟨e' :: es', ?_, ?_⟩
    · rw [factorChildren, he', hes']
      rfl
    · rw [List.map_cons, List.map_cons, hetruth, hestruth]

end

/-- `(a AND a AND b) OR (a AND b AND c)`. -/
def repeatedConjunct : Expression :=
  conjunction 1 [conjunction 0 [columnRef ⟨0, 0⟩, columnRef ⟨0, 0⟩, columnRef ⟨0, 1⟩],
    conjunction 0 [columnRef ⟨0, 0⟩, columnRef ⟨0, 1⟩, columnRef ⟨0, 2⟩]]

/-- `(a AND b) OR (a AND c)`. -/
def sharedConjunct : Expression :=
  conjunction 1 [conjunction 0 [columnRef ⟨0, 0⟩, columnRef ⟨0, 1⟩],
    conjunction 0 [columnRef ⟨0, 0⟩, columnRef ⟨0, 2⟩]]

theorem factorCommonDisjunctConjuncts_truth_sharedConjunct :
    ∃ factored, factorCommonDisjunctConjuncts sharedConjunct = some factored ∧
      truthOf booleans (fun b => some (b.columnIndex = 0)) factored =
        truthOf booleans (fun b => some (b.columnIndex = 0)) sharedConjunct := by
  refine factorCommonDisjunctConjuncts_truth booleans _ sharedConjunct
    ⟨⟨⟨⟨trivial, trivial, trivial⟩, ?_⟩, ⟨⟨trivial, trivial, trivial⟩, ?_⟩, trivial⟩, ?_⟩
  · exact fun _ _ hzero => absurd hzero (by decide)
  · exact fun _ _ hzero => absurd hzero (by decide)
  · intro factored hfactored _ _
    have heq : factorChildren [conjunction 0 [columnRef ⟨0, 0⟩, columnRef ⟨0, 1⟩],
        conjunction 0 [columnRef ⟨0, 0⟩, columnRef ⟨0, 2⟩]] =
        some [conjunction 0 [columnRef ⟨0, 0⟩, columnRef ⟨0, 1⟩],
          conjunction 0 [columnRef ⟨0, 0⟩, columnRef ⟨0, 2⟩]] := by rfl
    rw [heq, Option.some.injEq] at hfactored
    subst hfactored
    have hcolumns : ∀ branch ∈ [conjunction 0 [columnRef ⟨0, 0⟩, columnRef ⟨0, 1⟩],
        conjunction 0 [columnRef ⟨0, 0⟩, columnRef ⟨0, 2⟩]].map extractAndConjuncts,
        ∀ e ∈ branch, e ∈ [columnRef ⟨0, 0⟩, columnRef ⟨0, 1⟩, columnRef ⟨0, 2⟩] := by
      simp [extractAndConjuncts, extractAndConjunctsList]
    have htruth : ∀ e ∈ [columnRef ⟨0, 0⟩, columnRef ⟨0, 1⟩, columnRef ⟨0, 2⟩],
        ∀ e' ∈ [columnRef ⟨0, 0⟩, columnRef ⟨0, 1⟩, columnRef ⟨0, 2⟩],
          joinPredicateFingerprint e = joinPredicateFingerprint e' →
            truthOf booleans (fun b => some (b.columnIndex = 0)) e =
              truthOf booleans (fun b => some (b.columnIndex = 0)) e' := by
      decide
    refine ⟨by decide, ?_, by decide⟩
    intro branch hbranch e he branch' hbranch' e' he' heq _
    exact htruth e (hcolumns branch hbranch e he) e' (hcolumns branch' hbranch' e' he') heq

/-- On the row with `a` true and `b` false, `repeatedConjunct` is false, and what factoring
makes of it, `a AND a`, is true. -/
theorem not_factorCommonDisjunctConjuncts_truth :
    ¬ ∀ (e : Expression) (row : Env Bool), ∃ factored,
      factorCommonDisjunctConjuncts e = some factored ∧
        truthOf booleans row factored = truthOf booleans row e := by
  intro h
  obtain ⟨factored, hfactored, htruth⟩ := h repeatedConjunct fun b => some (b.columnIndex = 0)
  have heq : factorCommonDisjunctConjuncts repeatedConjunct =
      some (conjunction 0 [columnRef ⟨0, 0⟩, columnRef ⟨0, 0⟩]) := by rfl
  rw [heq, Option.some.injEq] at hfactored
  subst hfactored
  exact absurd htruth (by decide)

end CommonConjuncts
end PgYaap
