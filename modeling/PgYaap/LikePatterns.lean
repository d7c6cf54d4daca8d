import PgYaap.FilterAgreement

/-! # LIKE patterns with `%`

The standalone filter has one loop over the tokens of a pattern, the join and the scan have
another one. Both take each token at its first occurrence behind the last one, so what is left
of the text is as long as it can be (`LeavesMost`). That decides the patterns that end in `%`.
For the others the text has to end with the last token: the filter answers no for all of
them, the join and the scan ask for the end at the first occurrence. -/
namespace PgYaap
namespace LikePatterns

open SqlLogic FilterProgram

/-! ## The loop of the join and the scan -/

/-- One token: at the front of the text, or searched. -/
def viewToken (anchoredStart firstToken : Bool) (token text : Bytes) : Option Bytes :=
  if firstToken && anchoredStart then
    if token <+: text then some (text.drop token.length) else none
  else afterFirst token text

/-- The loop over the pattern from `pat_pos` and the text from `text_pos`; `none` stands for a
loop that has not ended in the turns it has. -/
def viewLoop (anchoredStart anchoredEnd : Bool) : Nat → Bytes → Bytes → Bool → Option Bool
  | 0, _, _, _ => none
  | turns + 1, pat, text, firstToken =>
      if pat = [] then some (!anchoredEnd || text.isEmpty)
      else
        let pat := pat.dropWhile (· == percent)
        if pat = [] then some true
        else
          let token := pat.takeWhile (· != percent)
          let next := pat.dropWhile (· != percent)
          if token = [] then viewLoop anchoredStart anchoredEnd turns next text firstToken
          else match viewToken anchoredStart firstToken token text with
            | none => some false
            | some text =>
                if next = [] then some (!anchoredEnd || text.isEmpty)
                else viewLoop anchoredStart anchoredEnd turns next text false

/-- `MatchPercentLikePattern` of the join and the scan, with as many turns as the pattern has
characters, and one more. -/
def matchPercentLikeView (text spec : Bytes) : Option Bool :=
  if spec = [] then some text.isEmpty
  else if spec = [percent] then some true
  else viewLoop (spec.head? != some percent) (spec.getLast? != some percent) (spec.length + 1)
    spec text true

section Loop

variable {anchoredStart anchoredEnd firstToken : Bool} {pat text : Bytes}

/-- Several `%` are skipped. -/
theorem matchTokens_dropWhile (pat : Bytes) :
    matchTokens anchoredStart (pat.dropWhile (· == percent)) [] firstToken text =
      matchTokens anchoredStart pat [] firstToken text := by
  induction pat with
  | nil => rfl
  | cons c pat ih =>
    by_cases hc : c = percent
    · subst hc
      rw [List.dropWhile_cons_of_pos (by rfl), ih, matchTokens, if_pos rfl]
      simp [matchToken]
    · rw [List.dropWhile_cons_of_neg (by simpa using hc)]

/-- The characters up to the next `%` are a token. -/
theorem matchTokens_append {token : Bytes} (htok : percent ∉ token) (acc next : Bytes) :
    matchTokens anchoredStart (token ++ next) acc firstToken text =
      matchTokens anchoredStart next (acc ++ token) firstToken text := by
  induction token generalizing acc with
  | nil => rw [List.nil_append, List.append_nil]
  | cons c token ih =>
    rw [List.mem_cons, not_or] at htok
    rw [List.cons_append, matchTokens, if_neg fun hc => htok.1 hc.symm, ih htok.2,
      List.append_assoc, List.singleton_append]

theorem viewToken_eq {token : Bytes} (htoken : token ≠ []) :
    viewToken anchoredStart firstToken token text =
      matchToken anchoredStart firstToken token text := by
  rw [viewToken, matchToken, if_neg htoken]

/-- What the loop says of the text that the tokens leave. -/
def endAnswer (anchoredEnd : Bool) : Option Bytes → Bool
  | none => false
  | some rest => !anchoredEnd || rest.isEmpty

theorem percent_not_mem_takeWhile (pat : Bytes) : percent ∉ pat.takeWhile (· != percent) := by
  intro hmem
  have hne := List.mem_takeWhile_imp hmem
  simp at hne

/-- **The loop goes through the tokens**, if it has more turns than the pattern has
characters. -/
theorem viewLoop_eq {turns : Nat} (hturns : pat.length < turns)
    (hend : pat.getLast? = some percent → anchoredEnd = false) :
    viewLoop anchoredStart anchoredEnd turns pat text firstToken =
      some (endAnswer anchoredEnd (matchTokens anchoredStart pat [] firstToken text)) := by
  induction turns generalizing pat text firstToken with
  | zero => omega
  | succ turns ih =>
    rw [viewLoop]
    by_cases hpat : pat = []
    · subst hpat
      rw [if_pos rfl]
      rfl
    · rw [if_neg hpat, ← matchTokens_dropWhile pat]
      dsimp only
      by_cases hskip : pat.dropWhile (· == percent) = []
      · -- only `%` is left
        have hall := List.dropWhile_eq_nil_iff.1 hskip
        have hlast : pat.getLast? = some percent := by
          rw [List.getLast?_eq_some_getLast hpat]
          exact congrArg some (by simpa using hall _ (List.getLast_mem hpat))
        rw [hskip, if_pos rfl, hend hlast]
        rfl
      · rw [if_neg hskip]
        have hsuffix := List.dropWhile_suffix (l := pat) (· == percent)
        have hhead := List.head_dropWhile_not (· == percent) hskip
        generalize pat.dropWhile (· == percent) = rest at hskip hsuffix hhead ⊢
        have hsplit := List.takeWhile_append_dropWhile (p := (· != percent)) (l := rest)
        have htok := percent_not_mem_takeWhile rest
        have hnext := List.dropWhile_suffix (l := rest) (· != percent)
        have htoken : rest.takeWhile (· != percent) ≠ [] := by
          cases rest with
          | nil => exact absurd rfl hskip
          | cons c rest =>
            rw [List.head_cons] at hhead
            rw [List.takeWhile_cons_of_pos (by simpa using hhead)]
            exact List.cons_ne_nil _ _
        have hstop : ∀ h : rest.dropWhile (· != percent) ≠ [],
            ((rest.dropWhile (· != percent)).head h != percent) = false :=
          fun h => List.head_dropWhile_not (· != percent) h
        have hlen := congrArg List.length hsplit
        rw [List.length_append] at hlen
        generalize rest.takeWhile (· != percent) = token at hsplit htok htoken hlen ⊢
        generalize rest.dropWhile (· != percent) = next at hsplit hnext hstop hlen ⊢
        rw [if_neg htoken, viewToken_eq htoken, ← hsplit, matchTokens_append htok, List.nil_append]
        have hpos := List.length_pos_iff.2 htoken
        have hle := hsuffix.length_le
        cases next with
        | nil =>
          rw [matchTokens]
          cases matchToken anchoredStart firstToken token text with
          | none => rfl
          | some left => rfl
        | cons c next =>
          obtain rfl : c = percent := by simpa using hstop (List.cons_ne_nil _ _)
          have hisEmpty : token.isEmpty = false := by simpa using htoken
          rw [matchTokens, if_pos rfl, hisEmpty, Bool.and_false]
          cases matchToken anchoredStart firstToken token text with
          | none => rfl
          | some left =>
            have hsame : matchTokens anchoredStart (percent :: next) [] false left =
                matchTokens anchoredStart next [] false left := by
              rw [matchTokens, if_pos rfl]
              simp [matchToken]
            dsimp only
            rw [if_neg (List.cons_ne_nil _ _), Option.bind_eq_bind, Option.bind_some, ← hsame]
            apply ih (by omega)
            intro hlast
            refine hend ?_
            obtain ⟨front, hfront⟩ := hnext.trans hsuffix
            rw [← hfront, List.getLast?_append, hlast]
            rfl

end Loop

/-- The loop always ends, and says what the tokens say. -/
theorem matchPercentLikeView_eq (text spec : Bytes) :
    matchPercentLikeView text spec = some (matchPercentLikeToEnd text spec) := by
  rw [matchPercentLikeView, matchPercentLikeToEnd]
  by_cases hempty : spec = []
  · rw [if_pos hempty, if_pos hempty]
  · rw [if_neg hempty, if_neg hempty]
    by_cases hpercent : spec = [percent]
    · subst hpercent
      rfl
    · rw [if_neg hpercent, viewLoop_eq (Nat.lt_succ_self _) fun hlast => by rw [hlast]; rfl]
      cases matchTokens (spec.head? != some percent) spec [] true text with
      | none => rfl
      | some rest => simp [endAnswer, bne]

/-! ## Greedy matching -/

/-- What is left of a text behind its shortest front that matches a pattern, if one does. -/
def LeavesMost (pattern text : Bytes) : Option Bytes → Prop
  | none => ∀ front back, text = front ++ back → percentLike pattern front = false
  | some rest => (∃ front, text = front ++ rest ∧ percentLike pattern front = true) ∧
      ∀ front back, text = front ++ back → percentLike pattern front = true →
        back.length ≤ rest.length

/-- The fronts that match `%`, a token and a pattern. -/
theorem percentLike_percent_token_iff {token : Bytes} (htok : percent ∉ token)
    (pattern text : Bytes) : percentLike (percent :: (token ++ pattern)) text = true ↔
      ∃ front back, text = front ++ (token ++ back) ∧ percentLike pattern back = true := by
  rw [percentLike_percent_iff]
  constructor
  · rintro ⟨tail, ⟨front, rfl⟩, hmatch⟩
    obtain ⟨back, rfl, hback⟩ := (percentLike_append_iff htok _ _).1 hmatch
    exact ⟨front, back, rfl, hback⟩
  · rintro ⟨front, back, rfl, hback⟩
    exact ⟨token ++ back, List.suffix_append front _,
      (percentLike_append_iff htok _ _).2 ⟨back, rfl, hback⟩⟩

theorem percentLike_nil_iff (text : Bytes) : percentLike [] text = true ↔ text = [] := by
  rw [percentLike, List.isEmpty_iff]

section Greedy

variable {anchored first : Bool}

/-- The last token of a pattern, searched. -/
theorem leavesMost_last {token : Bytes} (htok : percent ∉ token) (text : Bytes) :
    LeavesMost (percent :: token) text (afterFirst token text) := by
  have hiff := percentLike_percent_token_iff htok []
  rw [List.append_nil] at hiff
  cases hafter : afterFirst token text with
  | none =>
    rintro front back rfl
    by_contra hmatch
    obtain ⟨lead, rest, rfl, hrest⟩ := (hiff front).1 (by simpa using hmatch)
    obtain rfl := (percentLike_nil_iff rest).1 hrest
    obtain ⟨left, hleft, -⟩ := @afterFirst_longest _ _ token
      (lead ++ (token ++ []) ++ back) lead back (by simp)
    rw [hleft] at hafter
    cases hafter
  | some rest =>
    obtain ⟨lead, hlead⟩ := afterFirst_spec hafter
    refine ⟨⟨lead ++ token, by rw [hlead, List.append_assoc],
      (hiff _).2 ⟨lead, [], by rw [List.append_nil], by rfl⟩⟩, ?_⟩
    rintro front back rfl hmatch
    obtain ⟨lead', rest', rfl, hrest'⟩ := (hiff front).1 hmatch
    obtain rfl := (percentLike_nil_iff rest').1 hrest'
    obtain ⟨left, hleft, hsuffix⟩ := @afterFirst_longest _ _ token
      (lead' ++ (token ++ []) ++ back) lead' back (by simp)
    rw [hafter] at hleft
    obtain rfl := Option.some.inj hleft
    exact hsuffix.length_le

/-- A token between two `%`: the shortest front goes on behind its first occurrence. -/
theorem leavesMost_token {token pattern text rest : Bytes} (htok : percent ∉ token)
    (hafter : afterFirst token text = some rest) {left : Option Bytes}
    (h : LeavesMost (percent :: pattern) rest left) :
    LeavesMost (percent :: (token ++ percent :: pattern)) text left := by
  have hiff := percentLike_percent_token_iff htok (percent :: pattern)
  obtain ⟨lead, hlead⟩ := afterFirst_spec hafter
  -- a front of the text that matches gives one of the rest, with as much behind it
  have hfront : ∀ front back, text = front ++ back →
      percentLike (percent :: (token ++ percent :: pattern)) front = true →
      ∃ front', rest = front' ++ back ∧ percentLike (percent :: pattern) front' = true := by
    rintro front back rfl hmatch
    obtain ⟨lead', tail, rfl, htail⟩ := (hiff front).1 hmatch
    obtain ⟨left', hleft', more, rfl⟩ := @afterFirst_longest _ _ token
      (lead' ++ (token ++ tail) ++ back) lead' (tail ++ back) (by simp)
    rw [hafter] at hleft'
    obtain rfl := Option.some.inj hleft'
    exact ⟨more ++ tail, by rw [List.append_assoc],
      percentLike_percent_mono (List.suffix_append more tail) htail⟩
  cases left with
  | none =>
    intro front back heq
    by_contra hmatch
    obtain ⟨front', hrest, hmatch'⟩ := hfront front back heq (by simpa using hmatch)
    exact absurd ((h front' back hrest).symm.trans hmatch') Bool.false_ne_true
  | some left =>
    obtain ⟨⟨front', rfl, hmatch'⟩, hmost⟩ := h
    refine ⟨⟨lead ++ (token ++ front'), by rw [hlead]; simp, (hiff _).2 ⟨lead, front', rfl, hmatch'⟩⟩,
      fun front back heq hmatch => ?_⟩
    obtain ⟨front'', hrest, hmatch''⟩ := hfront front back heq hmatch
    exact hmost front'' back hrest hmatch''

theorem leavesMost_no_token {token pattern text : Bytes} (htok : percent ∉ token)
    (hafter : afterFirst token text = none) :
    LeavesMost (percent :: (token ++ percent :: pattern)) text none := by
  rintro front back rfl
  by_contra hmatch
  obtain ⟨lead, tail, rfl, -⟩ :=
    (percentLike_percent_token_iff htok _ front).1 (by simpa using hmatch)
  obtain ⟨left, hleft, -⟩ := @afterFirst_longest _ _ token
    (lead ++ (token ++ tail) ++ back) lead (tail ++ back) (by simp)
  rw [hafter] at hleft
  cases hleft

theorem getLast?_cons_ne {c : UInt8} {pattern : Bytes} (hne : pattern ≠ [])
    (hend : (c :: pattern).getLast? ≠ some percent) : pattern.getLast? ≠ some percent := by
  cases pattern with
  | nil => exact absurd rfl hne
  | cons d pattern => rwa [List.getLast?_cons_cons] at hend

/-- **Searching the tokens leaves most**, in a pattern that does not end in `%`. -/
theorem matchTokens_leavesMost {pattern : Bytes} (hfirst : first = false ∨ anchored = false)
    {token : Bytes} (hend : pattern.getLast? ≠ some percent) (hne : token ++ pattern ≠ [])
    (htok : percent ∉ token) (text : Bytes) :
    LeavesMost (percent :: (token ++ pattern)) text
      (matchTokens anchored pattern token first text) := by
  have hsearch : ∀ token text, token ≠ [] →
      matchToken anchored first token text = afterFirst token text := by
    intro token text htoken
    rcases hfirst with rfl | rfl <;> simp [matchToken, htoken]
  induction pattern generalizing token text first with
  | nil =>
    rw [List.append_nil] at hne ⊢
    rw [matchTokens, hsearch token text hne]
    exact leavesMost_last htok text
  | cons c pattern ih =>
    rw [matchTokens]
    by_cases hc : c = percent
    · subst hc
      have hpattern : pattern ≠ [] := by
        rintro rfl
        exact hend rfl
      have hfirst' : ∀ b, (first && b) = false ∨ anchored = false := by
        intro b
        rcases hfirst with rfl | h
        · exact .inl rfl
        · exact .inr h
      have hrec : ∀ text b, LeavesMost (percent :: pattern) text
          (matchTokens anchored pattern [] (first && b) text) := by
        intro text b
        refine @ih (first && b) (hfirst' b) [] (getLast?_cons_ne hpattern hend) hpattern
          List.not_mem_nil text ?_
        intro token text htoken
        rcases hfirst' b with h | rfl
        · rw [h]
          simp [matchToken, htoken]
        · simp [matchToken, htoken]
      rw [if_pos rfl]
      by_cases htoken : token = []
      · subst htoken
        have hsame : ∀ front, percentLike (percent :: percent :: pattern) front =
            percentLike (percent :: pattern) front := percentLike_percent_percent pattern
        have h := hrec text (([] : Bytes).isEmpty)
        rw [List.nil_append]
        show LeavesMost _ text (matchTokens anchored pattern [] (first && _) text)
        revert h
        generalize matchTokens anchored pattern [] (first && ([] : Bytes).isEmpty) text = left
        cases left <;> simp only [LeavesMost, hsame, imp_self]
      · rw [hsearch token text htoken]
        cases hafter : afterFirst token text with
        | none => exact leavesMost_no_token htok hafter
        | some rest => exact leavesMost_token htok hafter (hrec rest _)
    · rw [if_neg hc]
      have htok' : percent ∉ token ++ [c] := by
        rw [List.mem_append, List.mem_singleton, not_or]
        exact ⟨htok, fun h => hc h.symm⟩
      have hend' : pattern.getLast? ≠ some percent := by
        cases pattern with
        | nil => exact fun h => by cases h
        | cons d pattern => rwa [List.getLast?_cons_cons] at hend
      have h := @ih first hfirst (token ++ [c]) hend' (by simp) htok' text hsearch
      rwa [List.append_assoc, List.singleton_append] at h

/-- A token in front of a pattern. -/
theorem leavesMost_prefix {token pattern rest : Bytes} (htok : percent ∉ token)
    {left : Option Bytes} (h : LeavesMost pattern rest left) :
    LeavesMost (token ++ pattern) (token ++ rest) left := by
  have hiff := percentLike_append_iff htok pattern
  have hfront : ∀ front back, token ++ rest = front ++ back →
      percentLike (token ++ pattern) front = true →
      ∃ front', rest = front' ++ back ∧ percentLike pattern front' = true := by
    intro front back heq hmatch
    obtain ⟨front', rfl, hmatch'⟩ := (hiff front).1 hmatch
    rw [List.append_assoc, List.append_cancel_left_eq] at heq
    exact ⟨front', heq, hmatch'⟩
  cases left with
  | none =>
    intro front back heq
    by_contra hmatch
    obtain ⟨front', hrest, hmatch'⟩ := hfront front back heq (by simpa using hmatch)
    exact absurd ((h front' back hrest).symm.trans hmatch') Bool.false_ne_true
  | some left =>
    obtain ⟨⟨front', rfl, hmatch'⟩, hmost⟩ := h
    refine ⟨⟨token ++ front', by rw [List.append_assoc], (hiff _).2 ⟨front', rfl, hmatch'⟩⟩,
      fun front back heq hmatch => ?_⟩
    obtain ⟨front'', hrest, hmatch''⟩ := hfront front back heq hmatch
    exact hmost front'' back hrest hmatch''

theorem leavesMost_no_prefix {token text : Bytes} (htok : percent ∉ token) (pattern : Bytes)
    (hpre : ¬ token <+: text) : LeavesMost (token ++ pattern) text none := by
  rintro front back rfl
  by_contra hmatch
  obtain ⟨front', rfl, -⟩ := (percentLike_append_iff htok pattern front).1 (by simpa using hmatch)
  rw [List.append_assoc] at hpre
  exact hpre (List.prefix_append _ _)

/-- The first token of an anchored pattern stands in front. -/
theorem matchTokens_anchored_leavesMost {pattern token : Bytes}
    (hend : pattern.getLast? ≠ some percent)
    (hstart : token ≠ [] ∨ pattern ≠ [] ∧ pattern.head? ≠ some percent) (htok : percent ∉ token)
    (text : Bytes) :
    LeavesMost (token ++ pattern) text (matchTokens true pattern token true text) := by
  have hfront : ∀ token text, token ≠ [] → matchToken true true token text =
      if token <+: text then some (text.drop token.length) else none := by
    intro token text htoken
    rw [matchToken, if_neg htoken, Bool.and_self, if_pos rfl]
  induction pattern generalizing token with
  | nil =>
    have htoken : token ≠ [] := hstart.resolve_right fun h => h.1 rfl
    rw [matchTokens, hfront token text htoken]
    by_cases hpre : token <+: text
    · obtain ⟨rest, rfl⟩ := hpre
      rw [if_pos (List.prefix_append _ _), List.drop_left]
      apply leavesMost_prefix htok
      refine ⟨⟨[], rfl, rfl⟩, ?_⟩
      rintro front back rfl -
      simp
    · rw [if_neg hpre]
      exact leavesMost_no_prefix htok [] hpre
  | cons c pattern ih =>
    rw [matchTokens]
    by_cases hc : c = percent
    · subst hc
      have htoken : token ≠ [] := hstart.resolve_right fun h => h.2 rfl
      have hpattern : pattern ≠ [] := by
        rintro rfl
        exact hend rfl
      have hisEmpty : token.isEmpty = false := by simpa using htoken
      rw [if_pos rfl, hfront token text htoken, hisEmpty, Bool.and_false]
      by_cases hpre : token <+: text
      · obtain ⟨rest, rfl⟩ := hpre
        rw [if_pos (List.prefix_append _ _), List.drop_left]
        exact leavesMost_prefix htok (@matchTokens_leavesMost true false pattern (.inl rfl) []
          (getLast?_cons_ne hpattern hend) hpattern List.not_mem_nil rest)
      · rw [if_neg hpre]
        exact leavesMost_no_prefix htok _ hpre
    · rw [if_neg hc]
      have htok' : percent ∉ token ++ [c] := by
        rw [List.mem_append, List.mem_singleton, not_or]
        exact ⟨htok, fun h => hc h.symm⟩
      have hend' : pattern.getLast? ≠ some percent := by
        cases pattern with
        | nil => exact fun h => by cases h
        | cons d pattern => rwa [List.getLast?_cons_cons] at hend
      have h := ih hend' (.inl (by simp)) htok'
      rwa [List.append_assoc, List.singleton_append] at h

/-- **Greedy matching leaves as much of the text as can be left.** -/
theorem matchTokens_greedy {pattern : Bytes} (hne : pattern ≠ [])
    (hend : pattern.getLast? ≠ some percent) (text : Bytes) :
    LeavesMost pattern text
      (matchTokens (pattern.head? != some percent) pattern [] true text) := by
  by_cases hstart : pattern.head? = some percent
  · have hanchored : (pattern.head? != some percent) = false := by simp [hstart]
    have h := @matchTokens_leavesMost false true pattern (.inr rfl) [] hend hne List.not_mem_nil text
    obtain ⟨p, rfl⟩ : ∃ p, pattern = percent :: p := by
      cases pattern with
      | nil => cases hstart
      | cons c p =>
        cases hstart
        exact ⟨p, rfl⟩
    have hsame : ∀ front, percentLike (percent :: percent :: p) front =
        percentLike (percent :: p) front := percentLike_percent_percent p
    rw [hanchored]
    revert h
    rw [List.nil_append]
    generalize matchTokens false (percent :: p) [] true text = left
    cases left <;> simp only [LeavesMost, hsame, imp_self]
  · have hanchored : (pattern.head? != some percent) = true := by simp [hstart]
    rw [hanchored]
    exact matchTokens_anchored_leavesMost hend (.inr ⟨hne, hstart⟩) List.not_mem_nil text

end Greedy

/-! ## The three copies -/

/-- A proper front of the text matches the pattern. -/
def MatchesFront (pattern text : Bytes) : Prop :=
  ∃ front back, text = front ++ back ∧ back ≠ [] ∧ percentLike pattern front = true

/-- The tokens end the text if the text matches and no shorter front of it does. -/
theorem tokensEnd_iff {pattern : Bytes} (hne : pattern ≠ [])
    (hend : pattern.getLast? ≠ some percent) (text : Bytes) :
    tokensEnd pattern text = true ↔
      percentLike pattern text = true ∧ ¬ MatchesFront pattern text := by
  have hgreedy := matchTokens_greedy hne hend text
  rw [tokensEnd, beq_iff_eq]
  revert hgreedy
  generalize matchTokens (pattern.head? != some percent) pattern [] true text = left
  cases left with
  | none =>
    intro hnone
    refine iff_of_false (fun h => by cases h) fun h => ?_
    have hfalse := hnone text [] (List.append_nil text).symm
    exact absurd (hfalse.symm.trans h.1) Bool.false_ne_true
  | some rest =>
    rintro ⟨⟨front, rfl, hfront⟩, hmost⟩
    rw [Option.some.injEq]
    constructor
    · rintro rfl
      refine ⟨by rwa [List.append_nil], ?_⟩
      rintro ⟨front', back, heq, hback, hmatch⟩
      exact hback (List.length_eq_zero_iff.1 (Nat.le_zero.1 (hmost front' back heq hmatch)))
    · rintro ⟨-, hnot⟩
      by_contra hrest
      exact hnot ⟨front, rest, rfl, hrest, hfront⟩

/-- The filter has no text that is long enough: the length of the trailing text wraps round. -/
theorem matchPercentLikePattern_of_open_end {pattern text : Bytes} (hne : pattern ≠ [])
    (hend : pattern.getLast? ≠ some percent) (hlen : text.length < 2 ^ 32) :
    matchPercentLikePattern text pattern = false := by
  have hlast : (pattern.getLast? != some percent) = true := by simp [hend]
  rw [matchPercentLikePattern, if_neg hne]
  cases matchTokens (pattern.head? != some percent) pattern [] true text with
  | none => rfl
  | some rest =>
    have hwrap : (pattern.length + 2 ^ 32 - (pattern.length + 1)) % 2 ^ 32 = 2 ^ 32 - 1 := by omega
    simp only [hlast, if_true, hwrap]
    by_cases hshort : text.length < 2 ^ 32 - 1
    · rw [if_pos hshort]
    · -- behind the end of the pattern there is nothing to compare with
      have hfull : text.length - (2 ^ 32 - 1) = 0 := by omega
      rw [if_neg hshort, hfull, List.drop_zero, List.take_of_length_le (by omega),
        List.drop_of_length_le (Nat.le_succ _), List.take_nil, beq_eq_false_iff_ne]
      rintro rfl
      rw [List.length_nil] at hshort
      omega

/-- The three copies of `MatchPercentLikePattern`; those of the join and the scan are the
same. -/
inductive Copy
  | filter
  | hashJoin
  | seqScan
  deriving DecidableEq, Repr

def Copy.matchPercentLikePattern (copy : Copy) (text pattern : Bytes) : Option Bool :=
  match copy with
  | filter => some (FilterProgram.matchPercentLikePattern text pattern)
  | hashJoin => matchPercentLikeView text pattern
  | seqScan => matchPercentLikeView text pattern

/-- The pattern is empty, or it ends in `%`. -/
def Closed (pattern : Bytes) : Prop := pattern = [] ∨ pattern.getLast? = some percent

/-- LIKE takes `%` for the only special character, as the copies do: there is no `_` and no
`\`, or they make no difference. -/
def PlainlyRead (pattern text : Bytes) : Prop := percentLike pattern text = like pattern text

/-- **When a copy is right.** A pattern that ends otherwise than in `%` the filter gets right
where LIKE does not match; the others get it right unless the text and a proper front of it
both match. -/
def Copy.Right (copy : Copy) (pattern text : Bytes) : Prop :=
  (Closed pattern → PlainlyRead pattern text) ∧
    (¬ Closed pattern → match copy with
      | filter => like pattern text = false
      | hashJoin | seqScan => PlainlyRead pattern text ↔
          ¬ (percentLike pattern text = true ∧ MatchesFront pattern text))

theorem matchPercentLikeToEnd_closed {pattern : Bytes} (h : Closed pattern) (text : Bytes) :
    matchPercentLikeToEnd text pattern = percentLike pattern text := by
  rcases h with rfl | hend
  · rfl
  · exact matchPercentLikeToEnd_of_end hend text

theorem matchPercentLikePattern_closed {pattern : Bytes} (h : Closed pattern) (text : Bytes) :
    FilterProgram.matchPercentLikePattern text pattern = percentLike pattern text := by
  rcases h with rfl | hend
  · rfl
  · exact matchPercentLikePattern_of_end hend text

theorem matchPercentLikeView_right_iff {pattern : Bytes} (h : ¬ Closed pattern) (text : Bytes) :
    matchPercentLikeView text pattern = some (like pattern text) ↔
      (PlainlyRead pattern text ↔
        ¬ (percentLike pattern text = true ∧ MatchesFront pattern text)) := by
  obtain ⟨hne, hend⟩ := not_or.1 h
  have hiff := tokensEnd_iff hne hend text
  rw [matchPercentLikeView_eq, matchPercentLikeToEnd_of_not_end hne hend, Option.some.injEq,
    PlainlyRead]
  cases htokens : tokensEnd pattern text <;> cases hread : percentLike pattern text <;>
    cases hlike : like pattern text <;> simp_all

/-- **When a copy answers as LIKE does.** -/
theorem like_copy_exact (copy : Copy) (pattern : Bytes) {text : Bytes}
    (hlen : text.length < 2 ^ 32) :
    copy.matchPercentLikePattern text pattern = some (like pattern text) ↔
      copy.Right pattern text := by
  by_cases hclosed : Closed pattern
  · have hread : copy.matchPercentLikePattern text pattern = some (percentLike pattern text) := by
      cases copy with
      | filter => exact congrArg some (matchPercentLikePattern_closed hclosed text)
      | hashJoin | seqScan =>
        exact (matchPercentLikeView_eq text pattern).trans
          (congrArg some (matchPercentLikeToEnd_closed hclosed text))
    rw [hread, Option.some.injEq]
    exact ⟨fun h => ⟨fun _ => h, fun hopen => absurd hclosed hopen⟩, fun h => h.1 hclosed⟩
  · have hopen : ∀ P : Prop, ((Closed pattern → PlainlyRead pattern text) ∧
        (¬ Closed pattern → P)) ↔ P := fun P =>
      ⟨fun h => h.2 hclosed, fun h => ⟨fun hc => absurd hc hclosed, fun _ => h⟩⟩
    obtain ⟨hne, hend⟩ := not_or.1 hclosed
    cases copy with
    | filter =>
      refine Iff.trans ?_ (hopen _).symm
      show some (FilterProgram.matchPercentLikePattern text pattern) = _ ↔ _
      rw [matchPercentLikePattern_of_open_end hne hend hlen, Option.some.injEq, eq_comm]
    | hashJoin | seqScan =>
      exact (matchPercentLikeView_right_iff hclosed text).trans (hopen _).symm

/-- Of a pattern without `_` and `\` all is plainly read. -/
theorem plainlyRead_of_not_mem {pattern : Bytes} (hus : underscore ∉ pattern)
    (hbs : backslash ∉ pattern) (text : Bytes) : PlainlyRead pattern text :=
  (like_eq_percentLike hus hbs text).symm

/-- The join and the scan on a pattern whose only special character is `%`. -/
theorem viewRight_iff {copy : Copy} (hcopy : copy ≠ .filter) {pattern : Bytes}
    (hus : underscore ∉ pattern) (hbs : backslash ∉ pattern) (text : Bytes) :
    copy.Right pattern text ↔
      Closed pattern ∨ ¬ (like pattern text = true ∧ MatchesFront pattern text) := by
  have hplain := plainlyRead_of_not_mem hus hbs text
  by_cases hclosed : Closed pattern
  · exact iff_of_true ⟨fun _ => hplain, fun hopen => absurd hclosed hopen⟩ (.inl hclosed)
  · rw [or_iff_right hclosed, ← hplain]
    cases copy with
    | filter => exact absurd rfl hcopy
    | hashJoin | seqScan =>
      exact ⟨fun h => (h.2 hclosed).1 hplain,
        fun h => ⟨fun hc => absurd hc hclosed, fun _ => iff_of_true hplain h⟩⟩

theorem like_copy_exact_abc :
    Copy.filter.matchPercentLikePattern [97, 98] [97, percent] = some (like [97, percent] [97, 98]) ↔
      Copy.filter.Right [97, percent] [97, 98] :=
  like_copy_exact .filter [97, percent] (by decide)

/-- **A text that matches its own characters** is refused by the filter. -/
theorem not_like_copy : ¬ ∀ (copy : Copy) (pattern text : Bytes), text.length < 2 ^ 32 →
    underscore ∉ pattern → backslash ∉ pattern →
      copy.matchPercentLikePattern text pattern = some (like pattern text) := by
  intro hall
  have hsame := hall .filter [97] [97] (by decide) (by decide) (by decide)
  revert hsame
  decide

/-- The scan refuses `aba` for `%a`: the first `a` does not end the text. -/
example : Copy.seqScan.matchPercentLikePattern [97, 98, 97] [percent, 97] = some false ∧
    like [percent, 97] [97, 98, 97] = true := by
  decide

end LikePatterns
end PgYaap
