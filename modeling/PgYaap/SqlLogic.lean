import Mathlib

/-! # Three-valued logic and LIKE patterns

The truth values of SQL with their connectives, and the matching of text against
patterns: `like` with the wildcards `%` and `_` and the escape character, and
`percentLike`, where `%` is the only special character. Matching a pattern that
ends in `%` from left to right, each token at its first occurrence, never has to go
back (`percentLike_token_iff`). -/
namespace PgYaap
namespace SqlLogic

/-! ## Truth values -/

/-- A truth value of SQL. -/
inductive Truth
  | true
  | false
  | unknown
  deriving DecidableEq, Repr

namespace Truth

def ofBool : Bool → Truth
  | .true => .true
  | .false => .false

def not : Truth → Truth
  | .true => .false
  | .false => .true
  | .unknown => .unknown

def and : Truth → Truth → Truth
  | .false, _ => .false
  | _, .false => .false
  | .true, b => b
  | .unknown, _ => .unknown

def or : Truth → Truth → Truth
  | .true, _ => .true
  | _, .true => .true
  | .false, b => b
  | .unknown, _ => .unknown

/-- The value is TRUE: what a WHERE clause asks. -/
def isTrue : Truth → Bool
  | .true => Bool.true
  | _ => Bool.false

/-- The value is not FALSE: what a CHECK constraint asks. -/
def notFalse : Truth → Bool
  | .false => Bool.false
  | _ => Bool.true

/-- TRUE for `pos`, and otherwise not FALSE: what a value has to be where it stands
under an even or an odd number of negations. -/
def holds (pos : Bool) (a : Truth) : Bool := if pos then a.isTrue else a.notFalse

@[simp] theorem holds_not (pos : Bool) (a : Truth) : a.not.holds pos = !a.holds (!pos) := by
  cases pos <;> cases a <;> rfl

@[simp] theorem holds_and (pos : Bool) (a b : Truth) :
    (a.and b).holds pos = (a.holds pos && b.holds pos) := by
  cases pos <;> cases a <;> cases b <;> rfl

@[simp] theorem holds_or (pos : Bool) (a b : Truth) :
    (a.or b).holds pos = (a.holds pos || b.holds pos) := by
  cases pos <;> cases a <;> cases b <;> rfl

@[simp] theorem holds_ofBool (pos b : Bool) : (ofBool b).holds pos = b := by
  cases pos <;> cases b <;> rfl

@[simp] theorem holds_unknown (pos : Bool) : unknown.holds pos = !pos := by
  cases pos <;> rfl

theorem holds_true (a : Truth) : a.holds Bool.true = a.isTrue := rfl

end Truth

/-! ## Patterns -/

/-- The bytes of a text value. -/
abbrev Bytes := List UInt8

/-- The character `%`. -/
abbrev percent : UInt8 := 37
/-- The character `_`. -/
abbrev underscore : UInt8 := 95
/-- The character `\`. -/
abbrev backslash : UInt8 := 92

/-- SQL `LIKE` on texts of one byte a character: `%` stands for any text, `_` for any
character, and `\` takes the next character as it is. -/
def like : Bytes → Bytes → Bool
  | [], text => text.isEmpty
  | c :: pattern, text =>
      if c = percent then text.tails.any (like pattern)
      else if c = underscore then match text with
        | [] => false
        | _ :: text => like pattern text
      else if c = backslash then match pattern with
        | [] => false
        | e :: pattern => match text with
          | [] => false
          | d :: text => e = d && like pattern text
      else match text with
        | [] => false
        | d :: text => c = d && like pattern text

/-- Matching where `%` is the only special character. -/
def percentLike : Bytes → Bytes → Bool
  | [], text => text.isEmpty
  | c :: pattern, text =>
      if c = percent then text.tails.any (percentLike pattern)
      else match text with
        | [] => false
        | d :: text => c = d && percentLike pattern text

/-- A pattern without `_` and `\` has no other special character than `%`. -/
theorem like_eq_percentLike {pattern : Bytes} (hus : underscore ∉ pattern)
    (hbs : backslash ∉ pattern) (text : Bytes) : like pattern text = percentLike pattern text := by
  induction pattern generalizing text with
  | nil => rfl
  | cons c pattern ih =>
    simp only [List.mem_cons, not_or] at hus hbs
    have hrec := ih hus.2 hbs.2
    have hunder : c ≠ underscore := fun h => hus.1 h.symm
    have hback : c ≠ backslash := fun h => hbs.1 h.symm
    by_cases hpct : c = percent
    · rw [like.eq_def, percentLike.eq_def]
      simp only [if_pos hpct, funext hrec]
    · rw [like.eq_def, percentLike.eq_def]
      simp only [if_neg hpct, if_neg hunder, if_neg hback, hrec]

theorem percentLike_percent_iff (pattern text : Bytes) :
    percentLike (percent :: pattern) text = true ↔
      ∃ rest, rest <:+ text ∧ percentLike pattern rest = true := by
  simp [percentLike, List.any_eq_true, List.mem_tails]

/-- A token without `%` stands at the front of the text. -/
theorem percentLike_append_iff {token : Bytes} (htok : percent ∉ token) (pattern text : Bytes) :
    percentLike (token ++ pattern) text = true ↔
      ∃ rest, text = token ++ rest ∧ percentLike pattern rest = true := by
  induction token generalizing text with
  | nil => simp
  | cons c token ih =>
    simp only [List.mem_cons, not_or] at htok
    have hc : c ≠ percent := fun h => htok.1 h.symm
    cases text with
    | nil => simp [percentLike, hc]
    | cons d text =>
      simp only [List.cons_append, percentLike, if_neg hc, Bool.and_eq_true, decide_eq_true_eq,
        ih htok.2, List.cons.injEq]
      constructor
      · rintro ⟨rfl, rest, rfl, h⟩
        exact ⟨rest, ⟨rfl, rfl⟩, h⟩
      · rintro ⟨rest, ⟨rfl, rfl⟩, h⟩
        exact ⟨rfl, rest, rfl, h⟩

theorem percentLike_percent_self (text : Bytes) : percentLike [percent] text = true :=
  (percentLike_percent_iff [] text).2 ⟨[], List.nil_suffix, rfl⟩

/-- A token followed by `%` is a test of the front of the text. -/
theorem percentLike_prefix_iff {token : Bytes} (htok : percent ∉ token) (text : Bytes) :
    percentLike (token ++ [percent]) text = true ↔ token <+: text := by
  rw [percentLike_append_iff htok]
  constructor
  · rintro ⟨rest, rfl, -⟩
    exact List.prefix_append token rest
  · rintro ⟨rest, rfl⟩
    exact ⟨rest, rfl, percentLike_percent_self rest⟩

/-- A token between two `%` is a search. -/
theorem percentLike_infix_iff {token : Bytes} (htok : percent ∉ token) (text : Bytes) :
    percentLike (percent :: (token ++ [percent])) text = true ↔ token <:+: text := by
  rw [percentLike_percent_iff]
  constructor
  · rintro ⟨rest, hrest, hmatch⟩
    exact ((percentLike_prefix_iff htok rest).1 hmatch).isInfix.trans hrest.isInfix
  · rintro ⟨front, back, rfl⟩
    refine ⟨token ++ back, ⟨front, by rw [List.append_assoc]⟩, ?_⟩
    exact (percentLike_prefix_iff htok _).2 (List.prefix_append token back)

/-- After `%` more text in front does no harm. -/
theorem percentLike_percent_mono {pattern rest text : Bytes} (hsuffix : rest <:+ text)
    (h : percentLike (percent :: pattern) rest = true) :
    percentLike (percent :: pattern) text = true := by
  rw [percentLike_percent_iff] at h ⊢
  obtain ⟨r, hr, hmatch⟩ := h
  exact ⟨r, hr.trans hsuffix, hmatch⟩

theorem percentLike_percent_percent (pattern text : Bytes) :
    percentLike (percent :: percent :: pattern) text = percentLike (percent :: pattern) text := by
  rw [Bool.eq_iff_iff, percentLike_percent_iff]
  constructor
  · rintro ⟨rest, hrest, h⟩
    exact percentLike_percent_mono hrest h
  · intro h
    exact ⟨text, List.suffix_rfl, h⟩

/-! ## First occurrences -/

/-- The text behind the first occurrence of a token. -/
def afterFirst {α : Type*} [DecidableEq α] (token : List α) : List α → Option (List α)
  | [] => if token = [] then some [] else none
  | c :: text =>
      if token <+: c :: text then some ((c :: text).drop token.length)
      else afterFirst token text

section AfterFirst
variable {α : Type*} [DecidableEq α] {token text rest : List α}

theorem afterFirst_spec (h : afterFirst token text = some rest) :
    ∃ front, text = front ++ (token ++ rest) := by
  induction text with
  | nil =>
    by_cases htok : token = []
    · simp_all [afterFirst]
    · simp [afterFirst, htok] at h
  | cons c text ih =>
    rw [afterFirst] at h
    by_cases hpre : token <+: c :: text
    · rw [if_pos hpre] at h
      obtain ⟨back, hback⟩ := hpre
      refine ⟨[], ?_⟩
      rw [← hback, List.drop_left, Option.some.injEq] at h
      rw [← h, List.nil_append, hback]
    · rw [if_neg hpre] at h
      obtain ⟨front, rfl⟩ := ih h
      exact ⟨c :: front, rfl⟩

/-- No occurrence of the token leaves more text behind it. -/
theorem afterFirst_longest {front back : List α} (h : text = front ++ (token ++ back)) :
    ∃ rest, afterFirst token text = some rest ∧ back <:+ rest := by
  induction text generalizing front with
  | nil =>
    have hnil := List.nil_eq_append_iff.1 h
    have htok := List.append_eq_nil_iff.1 hnil.2
    exact ⟨[], by simp [afterFirst, htok.1], by simp [htok.2]⟩
  | cons c text ih =>
    rw [afterFirst]
    by_cases hpre : token <+: c :: text
    · rw [if_pos hpre]
      refine ⟨_, rfl, ?_⟩
      -- The occurrence named by `front` lies at or behind the front of the text.
      have hback : back <:+ c :: text := ⟨front ++ token, by rw [h, List.append_assoc]⟩
      refine List.suffix_of_suffix_length_le hback (List.drop_suffix _ _) ?_
      have hlen := congrArg List.length h
      simp only [List.length_append, List.length_cons, List.length_drop] at hlen ⊢
      omega
    · rw [if_neg hpre]
      cases front with
      | nil => exact absurd ⟨back, h.symm⟩ hpre
      | cons d front =>
        simp only [List.cons_append, List.cons.injEq] at h
        exact ih h.2

end AfterFirst

/-- **Taking the first occurrence is enough.** Where a token stands between two `%`,
the text matches only if what is left behind the first occurrence of the token does. -/
theorem percentLike_token_iff {token : Bytes} (htok : percent ∉ token) (pattern text : Bytes) :
    percentLike (percent :: (token ++ percent :: pattern)) text = true ↔
      ∃ rest, afterFirst token text = some rest ∧
        percentLike (percent :: pattern) rest = true := by
  rw [percentLike_percent_iff]
  constructor
  · rintro ⟨tail, ⟨front, rfl⟩, hmatch⟩
    obtain ⟨back, rfl, hback⟩ := (percentLike_append_iff htok _ _).1 hmatch
    have hfirst : ∃ rest, afterFirst token (front ++ (token ++ back)) = some rest ∧ back <:+ rest :=
      afterFirst_longest rfl
    obtain ⟨rest, hrest, hsuffix⟩ := hfirst
    exact ⟨rest, hrest, percentLike_percent_mono hsuffix hback⟩
  · rintro ⟨rest, hrest, hmatch⟩
    obtain ⟨front, rfl⟩ := afterFirst_spec hrest
    exact ⟨token ++ rest, List.suffix_append front _,
      (percentLike_append_iff htok _ _).2 ⟨rest, rfl, hmatch⟩⟩

end SqlLogic
end PgYaap
