import Mathlib

/-! # Reading unescaped text

Texts put together from items with parentheses and commas, where nothing is escaped. Every
item starts with one of the `heads`. A text inside an item is legible when its parentheses
match and no comma outside of them leads into a head; such a text ends where it seems to
end (`legibleFrom_append_inj`). -/
namespace PgYaap
namespace UnescapedText

variable (heads : List (List Char))

/-- An item could start here. -/
def StartsItem (text : List Char) : Prop := ∃ head ∈ heads, head <+: text

instance (text : List Char) : Decidable (StartsItem heads text) :=
  inferInstanceAs (Decidable (∃ head ∈ heads, head <+: text))

/-- What can come after an item: nothing, the end of a list, or the next item. -/
inductive Follows : List Char → Prop
  | nil : Follows []
  | close (rest : List Char) : Follows (')' :: rest)
  | item {rest : List Char} (h : StartsItem heads rest) : Follows (',' :: rest)

/-- Legible text inside `depth` open parentheses. -/
def LegibleFrom : Nat → List Char → Prop
  | depth, [] => depth = 0
  | depth, c :: rest =>
    if c = '(' then LegibleFrom (depth + 1) rest
    else if c = ')' then 0 < depth ∧ LegibleFrom (depth - 1) rest
    else if c = ',' then (depth = 0 → ¬ StartsItem heads rest) ∧ LegibleFrom depth rest
    else LegibleFrom depth rest

/-- The decision follows the characters. -/
def decideLegibleFrom : (depth : Nat) → (text : List Char) → Decidable (LegibleFrom heads depth text)
  | depth, [] => inferInstanceAs (Decidable (depth = 0))
  | depth, c :: rest =>
    have _ := decideLegibleFrom (depth + 1) rest
    have _ := decideLegibleFrom (depth - 1) rest
    have _ := decideLegibleFrom depth rest
    inferInstanceAs (Decidable (if c = '(' then LegibleFrom heads (depth + 1) rest
      else if c = ')' then 0 < depth ∧ LegibleFrom heads (depth - 1) rest
      else if c = ',' then (depth = 0 → ¬ StartsItem heads rest) ∧ LegibleFrom heads depth rest
      else LegibleFrom heads depth rest))

instance (depth : Nat) (text : List Char) : Decidable (LegibleFrom heads depth text) :=
  decideLegibleFrom heads depth text

/-- Heads are not empty and have neither a comma nor a closing parenthesis. -/
structure PlainHeads : Prop where
  ne_nil : ∀ head ∈ heads, head ≠ []
  plain : ∀ head ∈ heads, ',' ∉ head ∧ ')' ∉ head

variable {heads}

theorem PlainHeads.not_startsItem_close (h : PlainHeads heads) (rest : List Char) :
    ¬ StartsItem heads (')' :: rest) := by
  rintro ⟨head, hmem, hbegins⟩
  cases head with
  | nil => exact h.ne_nil [] hmem rfl
  | cons c head =>
    obtain ⟨rfl, -⟩ := List.cons_prefix_cons.1 hbegins
    exact (h.plain _ hmem).2 List.mem_cons_self

/-- A head that starts in a text and not after it is part of the text. -/
theorem PlainHeads.startsItem_of_append (h : PlainHeads heads) {text rest : List Char}
    (hfollows : Follows heads rest) (hstarts : StartsItem heads (text ++ rest)) :
    StartsItem heads text := by
  obtain ⟨head, hmem, hbegins⟩ := hstarts
  refine ⟨head, hmem, ?_⟩
  rcases List.prefix_or_prefix_of_prefix hbegins (List.prefix_append text rest) with
    hinside | hacross
  · exact hinside
  · -- the head would contain the character that follows the text
    obtain ⟨more, rfl⟩ := hacross
    rw [List.prefix_append_right_inj] at hbegins
    obtain ⟨hcomma, hclose⟩ := h.plain _ hmem
    cases more with
    | nil =>
      rw [List.append_nil]
    | cons c more =>
      cases hfollows with
      | nil => exact absurd hbegins (by simp)
      | close rest =>
        obtain ⟨rfl, -⟩ := List.cons_prefix_cons.1 hbegins
        exact absurd (List.mem_append_right text List.mem_cons_self) hclose
      | item hitem =>
        obtain ⟨rfl, -⟩ := List.cons_prefix_cons.1 hbegins
        exact absurd (List.mem_append_right text List.mem_cons_self) hcomma

/-- No legible text starts with what follows an item. -/
theorem PlainHeads.not_follows (h : PlainHeads heads) {c : Char} {text rest : List Char}
    (hlegible : LegibleFrom heads 0 (c :: text)) (hrest : Follows heads rest) :
    ¬ Follows heads (c :: (text ++ rest)) := by
  intro hfollows
  cases hfollows with
  | close _ =>
    rw [LegibleFrom, if_neg (by decide), if_pos rfl] at hlegible
    exact absurd hlegible.1 (lt_irrefl 0)
  | item hitem =>
    rw [LegibleFrom, if_neg (by decide), if_neg (by decide), if_pos rfl] at hlegible
    exact hlegible.1 rfl (h.startsItem_of_append hrest hitem)

/-- **A legible text ends in one place only.** -/
theorem PlainHeads.legibleFrom_append_inj (h : PlainHeads heads) {depth : Nat}
    {text text' rest rest' : List Char} (htext : LegibleFrom heads depth text)
    (htext' : LegibleFrom heads depth text') (hrest : Follows heads rest)
    (hrest' : Follows heads rest') (heq : text ++ rest = text' ++ rest') :
    text = text' ∧ rest = rest' := by
  induction text generalizing depth text' with
  | nil =>
    rw [List.nil_append] at heq
    cases text' with
    | nil => exact ⟨rfl, heq⟩
    | cons c text' =>
      subst heq
      obtain rfl : depth = 0 := htext
      exact absurd hrest (h.not_follows htext' hrest')
  | cons c text ih =>
    cases text' with
    | nil =>
      rw [List.nil_append] at heq
      subst heq
      obtain rfl : depth = 0 := htext'
      exact absurd hrest' (h.not_follows htext hrest)
    | cons c' text' =>
      rw [List.cons_append, List.cons_append, List.cons.injEq] at heq
      obtain ⟨rfl, heq⟩ := heq
      rw [LegibleFrom] at htext htext'
      suffices hsame : text = text' ∧ rest = rest' from ⟨congrArg (c :: ·) hsame.1, hsame.2⟩
      by_cases hopen : c = '('
      · rw [if_pos hopen] at htext htext'
        exact ih htext htext' heq
      · rw [if_neg hopen] at htext htext'
        by_cases hclose : c = ')'
        · rw [if_pos hclose] at htext htext'
          exact ih htext.2 htext'.2 heq
        · rw [if_neg hclose] at htext htext'
          by_cases hcomma : c = ','
          · rw [if_pos hcomma] at htext htext'
            exact ih htext.2 htext'.2 heq
          · rw [if_neg hcomma] at htext htext'
            exact ih htext htext' heq

/-- A text without parentheses and commas is legible. -/
theorem legibleFrom_of_plain {text : List Char}
    (h : ∀ c ∈ text, c ≠ '(' ∧ c ≠ ')' ∧ c ≠ ',') : LegibleFrom heads 0 text := by
  induction text with
  | nil => rfl
  | cons c text ih =>
    obtain ⟨hopen, hclose, hcomma⟩ := h c List.mem_cons_self
    rw [LegibleFrom, if_neg hopen, if_neg hclose, if_neg hcomma]
    exact ih fun c' hc' => h c' (List.mem_cons_of_mem c hc')

/-- A text without a mark ends at the first mark. -/
theorem append_mark_inj {mark : Char} {text text' rest rest' : List Char} (h : mark ∉ text)
    (h' : mark ∉ text') (heq : text ++ mark :: rest = text' ++ mark :: rest') :
    text = text' ∧ rest = rest' := by
  induction text generalizing text' with
  | nil =>
    cases text' with
    | nil => exact ⟨rfl, (List.cons.inj heq).2⟩
    | cons c text' =>
      obtain ⟨rfl, -⟩ := List.cons.inj heq
      exact absurd List.mem_cons_self h'
  | cons c text ih =>
    cases text' with
    | nil =>
      obtain ⟨rfl, -⟩ := List.cons.inj heq
      exact absurd List.mem_cons_self h
    | cons c' text' =>
      obtain ⟨rfl, htail⟩ := List.cons.inj heq
      obtain ⟨rfl, hrest⟩ := ih (fun hmem => h (List.mem_cons_of_mem c hmem))
        (fun hmem => h' (List.mem_cons_of_mem c hmem)) htail
      exact ⟨rfl, hrest⟩

/-! ## Numbers -/

/-- The digits of a number are no punctuation. -/
theorem isDigit_of_mem_toString {n : Nat} {c : Char} (h : c ∈ (toString n).toList) :
    c.isDigit = true := by
  rw [Nat.toString_eq_repr, Nat.toList_repr] at h
  exact Nat.isDigit_of_mem_toDigits (by decide) (by decide) h

theorem plain_of_isDigit {c : Char} (h : c.isDigit = true) : c ≠ '(' ∧ c ≠ ')' ∧ c ≠ ',' := by
  refine ⟨?_, ?_, ?_⟩
  · rintro rfl
    cases h
  · rintro rfl
    cases h
  · rintro rfl
    cases h

theorem not_mem_toString_nat {n : Nat} {c : Char} (h : c.isDigit = false) :
    c ∉ (toString n).toList := fun hmem =>
  absurd (isDigit_of_mem_toString hmem) (by simp [h])

theorem not_mem_toString_int {n : Int} {c : Char} (h : c.isDigit = false) (hminus : c ≠ '-') :
    c ∉ (toString n).toList := by
  cases n with
  | ofNat n => exact not_mem_toString_nat (n := n) h
  | negSucc n =>
    change c ∉ ("-" ++ toString (n + 1)).toList
    rw [String.toList_append, List.mem_append, not_or]
    exact ⟨by simpa using hminus, not_mem_toString_nat h⟩

end UnescapedText
end PgYaap
