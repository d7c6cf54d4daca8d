import Mathlib

/-! # Lexemes of a SQL text

A SQL text is cut into blanks, comments, quoted pieces (literals, quoted identifiers, dollar
quotes), words and symbols. Words inside a comment or a quoted piece are no words of the text, and
brackets there do not count. The pieces put one after the other are the text (`lex_text`).

The list behind the outermost ORDER BY of a query is found by its words and its brackets: the words
are those outside all brackets of the query, the items are what stands between the commas outside
all brackets, and the list ends before LIMIT, OFFSET, FETCH, FOR, a semicolon or the end of the
query. -/
namespace PgYaap
namespace SqlLexemes

/-! ## Pieces -/

inductive Kind
  | blank
  | comment
  | quoted
  | word
  | symbol
  deriving DecidableEq, Repr

structure Lexeme where
  kind : Kind
  text : List Char
  deriving DecidableEq, Repr

def isBlank (c : Char) : Bool :=
  c = ' ' || c = '\n' || c = '\t' || c = '\r' || c.toNat = 11 || c.toNat = 12

/-- A character a word begins with; those past ASCII count as letters. -/
def isWordStart (c : Char) : Bool := c.isAlpha || c = '_' || 128 ≤ c.toNat

def isWordPart (c : Char) : Bool := isWordStart c || c.isDigit || c = '$'

/-- How much is left of a comment when so many comments are open. -/
def toBlockEnd : Nat → List Char → Nat
  | 0, _ => 0
  | _ + 1, [] => 0
  | depth + 1, '*' :: '/' :: rest => 2 + toBlockEnd depth rest
  | depth + 1, '/' :: '*' :: rest => 2 + toBlockEnd (depth + 2) rest
  | depth + 1, _ :: rest => 1 + toBlockEnd (depth + 1) rest

/-- How much is left of a quoted piece. A doubled quote ends one piece and begins another. -/
def toQuote (quote : Char) : List Char → Nat
  | [] => 0
  | c :: rest => if c = quote then 1 else 1 + toQuote quote rest

/-- How much is left of a literal with backslash escapes. -/
def toEscapedQuote : List Char → Nat
  | [] => 0
  | '\\' :: _ :: rest => 2 + toEscapedQuote rest
  | c :: rest => if c = '\'' then 1 else 1 + toEscapedQuote rest

/-- How much is left of a dollar quote. -/
def toDelimiter (delimiter : List Char) : List Char → Nat
  | [] => 0
  | c :: rest =>
    if delimiter.isPrefixOf (c :: rest) then delimiter.length else 1 + toDelimiter delimiter rest

/-- The delimiter of a dollar quote, behind its first dollar. -/
def dollarTag (rest : List Char) : Option (List Char) :=
  let tag := rest.takeWhile fun c => isWordPart c && c ≠ '$'
  if (rest.drop tag.length).head? = some '$' ∧ tag.head?.all isWordStart then some tag else none

/-- What the next piece is, and how many characters it has after its first one. -/
def nextPiece (c : Char) (rest : List Char) : Kind × Nat :=
  if isBlank c then (.blank, 0)
  else if c = '-' ∧ rest.head? = some '-' then (.comment, (rest.takeWhile (· ≠ '\n')).length)
  else if c = '/' ∧ rest.head? = some '*' then (.comment, 1 + toBlockEnd 1 rest.tail)
  else if c = '\'' ∨ c = '"' then (.quoted, toQuote c rest)
  else if (c = 'e' ∨ c = 'E') ∧ rest.head? = some '\'' then (.quoted, 1 + toEscapedQuote rest.tail)
  else if c = '$' then
    match dollarTag rest with
    | some tag => (.quoted, tag.length + 1 +
        toDelimiter ('$' :: tag ++ ['$']) (rest.drop (tag.length + 1)))
    | none => (.symbol, 0)
  else if isWordStart c then (.word, (rest.takeWhile isWordPart).length)
  else (.symbol, 0)

/-- The pieces of a text, at most so many. -/
def lexFuel : Nat → List Char → List Lexeme
  | 0, _ => []
  | _, [] => []
  | fuel + 1, c :: rest =>
    let piece := nextPiece c rest
    ⟨piece.1, c :: rest.take piece.2⟩ :: lexFuel fuel (rest.drop piece.2)

def lex (text : List Char) : List Lexeme := lexFuel text.length text

def textOf (lexemes : List Lexeme) : List Char := lexemes.flatMap Lexeme.text

@[simp] theorem textOf_nil : textOf [] = [] := rfl

@[simp] theorem textOf_cons (l : Lexeme) (rest : List Lexeme) :
    textOf (l :: rest) = l.text ++ textOf rest := List.flatMap_cons

@[simp] theorem textOf_append (xs ys : List Lexeme) :
    textOf (xs ++ ys) = textOf xs ++ textOf ys := List.flatMap_append

/-- **No character is lost.** -/
theorem lex_text (text : List Char) : textOf (lex text) = text := by
  have hfuel : ∀ fuel (text : List Char), text.length ≤ fuel → textOf (lexFuel fuel text) = text := by
    intro fuel
    induction fuel with
    | zero =>
      intro text h
      rw [List.length_eq_zero_iff.1 (Nat.le_zero.1 h)]
      rfl
    | succ fuel ih =>
      intro text h
      cases text with
      | nil => rfl
      | cons c rest =>
        have hrest : (rest.drop (nextPiece c rest).2).length ≤ fuel := by
          rw [List.length_drop]
          exact (Nat.sub_le _ _).trans (Nat.le_of_succ_le_succ h)
        show textOf (_ :: lexFuel fuel _) = _
        rw [textOf_cons, ih _ hrest, List.cons_append, List.take_append_drop]
  exact hfuel _ _ le_rfl

/-! ## Words and brackets -/

namespace Lexeme

def isWord (word : String) (l : Lexeme) : Bool :=
  l.kind = .word && l.text.map Char.toUpper = word.toList

def isSymbol (c : Char) (l : Lexeme) : Bool := l.kind = .symbol && l.text = [c]

/-- A blank or a comment. -/
def isGap (l : Lexeme) : Bool := l.kind = .blank || l.kind = .comment

def opens (l : Lexeme) : Bool := l.isSymbol '(' || l.isSymbol '['

def closes (l : Lexeme) : Bool := l.isSymbol ')' || l.isSymbol ']'

/-- What the lexeme does to the number of open brackets. -/
def turn (l : Lexeme) : Int := if l.opens then 1 else if l.closes then -1 else 0

/-- What ends an ORDER BY list. -/
def endsList (l : Lexeme) : Bool :=
  l.isWord "LIMIT" || l.isWord "OFFSET" || l.isWord "FETCH" || l.isWord "FOR" ||
    l.isSymbol ';' || l.closes

end Lexeme

/-- No prefix closes more brackets than it opens, and all are closed at the end. -/
def balanced : Int → List Lexeme → Bool
  | depth, [] => depth = 0
  | depth, l :: rest => 0 ≤ depth + l.turn && balanced (depth + l.turn) rest

/-- The number of pairs of parentheses around a whole query, at most so many. -/
def enclosing : Nat → List Lexeme → Nat
  | 0, _ => 0
  | _, [] => 0
  | fuel + 1, l :: rest =>
    if l.isSymbol '(' ∧ rest.getLast?.any (·.isSymbol ')') ∧ balanced 0 rest.dropLast then
      enclosing fuel rest.dropLast + 1
    else 0

/-- The number of pairs of parentheses around the query of a text. -/
def queryDepth (lexemes : List Lexeme) : Nat :=
  let significant := lexemes.filter (!·.isGap)
  let query := significant.rdropWhile (·.isSymbol ';')
  enclosing query.length query

/-! ## The outermost ORDER BY -/

/-- The parts of a query with an ORDER BY. -/
structure OrderBy where
  before : List Lexeme
  order : Lexeme
  gap : List Lexeme
  by_ : Lexeme
  items : List (List Lexeme)
  tail : List Lexeme
  deriving DecidableEq, Repr

/-- What follows an ORDER: blanks and comments, and BY. -/
def takeBy (rest : List Lexeme) : Option (List Lexeme × Lexeme × List Lexeme) :=
  match rest.dropWhile Lexeme.isGap with
  | [] => none
  | l :: list => if l.isWord "BY" then some (rest.takeWhile Lexeme.isGap, l, list) else none

/-- The items of a list, of which the first one has begun, and what follows the list. -/
def splitItems : Int → List Lexeme → List Lexeme → List (List Lexeme) × List Lexeme
  | _, item, [] => ([item], [])
  | depth, item, l :: rest =>
    if depth = 0 ∧ l.endsList then ([item], l :: rest)
    else if depth = 0 ∧ l.isSymbol ',' then
      let more := splitItems 0 [] rest
      (item :: more.1, more.2)
    else splitItems (depth + l.turn) (item ++ [l]) rest

/-- The first ORDER BY that is inside so many brackets. -/
def findOrderBy (level : Int) : Int → List Lexeme → Option OrderBy
  | _, [] => none
  | depth, l :: rest =>
    match if depth = level ∧ l.isWord "ORDER" then takeBy rest else none with
    | some (gap, by_, list) =>
      some ⟨[], l, gap, by_, (splitItems 0 [] list).1, (splitItems 0 [] list).2⟩
    | none => (findOrderBy level (depth + l.turn) rest).map fun found =>
        { found with before := l :: found.before }

/-- **The ORDER BY of the outermost query.** -/
def outermostOrderBy (lexemes : List Lexeme) : Option OrderBy :=
  findOrderBy (queryDepth lexemes) 0 lexemes

/-- An item is descending when DESC stands in it outside all brackets. -/
def descending : Int → List Lexeme → Bool
  | _, [] => false
  | depth, l :: rest => (depth = 0 && l.isWord "DESC") || descending (depth + l.turn) rest

namespace OrderBy

/-- **The directions of the list**: true for an ascending item. -/
def directions (ob : OrderBy) : List Bool := ob.items.map fun item => !descending 0 item

/-- The items up to the last one, with the commas behind them, as text. -/
def leading (ob : OrderBy) : List Char :=
  ob.items.dropLast.flatMap fun item => textOf item ++ [',']

/-- The last item and what follows the list, as text. -/
def trailing (ob : OrderBy) : List Char := textOf (ob.items.getLast?.getD []) ++ textOf ob.tail

end OrderBy

/-! ## The parts make up the text -/

section Parts

theorem isSymbol_text {c : Char} {l : Lexeme} (h : l.isSymbol c = true) : l.text = [c] := by
  simp only [Lexeme.isSymbol, Bool.and_eq_true, decide_eq_true_eq] at h
  exact h.2

theorem takeBy_eq {rest gap list : List Lexeme} {by_ : Lexeme}
    (h : takeBy rest = some (gap, by_, list)) :
    rest = gap ++ by_ :: list ∧ by_.isWord "BY" = true := by
  unfold takeBy at h
  cases hdrop : rest.dropWhile Lexeme.isGap with
  | nil => rw [hdrop] at h; cases h
  | cons l more =>
    rw [hdrop] at h
    simp only at h
    split_ifs at h with hby
    obtain ⟨rfl, rfl, rfl⟩ : rest.takeWhile Lexeme.isGap = gap ∧ l = by_ ∧ more = list := by
      simpa using h
    exact ⟨by rw [← hdrop, List.takeWhile_append_dropWhile], hby⟩

/-- A list has an item. -/
theorem splitItems_ne_nil (depth : Int) (item rest : List Lexeme) :
    (splitItems depth item rest).1 ≠ [] := by
  induction rest generalizing depth item with
  | nil => simp [splitItems]
  | cons l rest ih =>
    unfold splitItems
    split_ifs
    · simp
    · simp
    · exact ih _ _

/-- The items with commas between them, and what follows, are the text. -/
theorem splitItems_text (depth : Int) (item rest : List Lexeme) :
    textOf item ++ textOf rest =
      ((splitItems depth item rest).1.dropLast.flatMap fun i => textOf i ++ [',']) ++
        (textOf ((splitItems depth item rest).1.getLast?.getD []) ++
          textOf (splitItems depth item rest).2) := by
  induction rest generalizing depth item with
  | nil => simp [splitItems]
  | cons l rest ih =>
    unfold splitItems
    split_ifs with hend hcomma
    · simp
    · have hne := splitItems_ne_nil 0 [] rest
      have hrest := ih 0 []
      rw [textOf_nil, List.nil_append] at hrest
      simp only [List.dropLast_cons_of_ne_nil hne, List.flatMap_cons, List.getLast?_cons,
        textOf_cons, isSymbol_text hcomma.2]
      rw [hrest]
      cases hlast : (splitItems 0 [] rest).1.getLast? with
      | none => exact absurd (List.getLast?_eq_none_iff.1 hlast) hne
      | some last => simp [List.append_assoc]
    · rw [← ih]
      simp

/-- **The parts of a query with an ORDER BY**, in their order. -/
theorem outermostOrderBy_text {lexemes : List Lexeme} {ob : OrderBy}
    (h : outermostOrderBy lexemes = some ob) :
    textOf lexemes = textOf ob.before ++ (ob.order.text ++ (textOf ob.gap ++ (ob.by_.text ++
        (ob.leading ++ ob.trailing)))) ∧
      ob.order.isWord "ORDER" = true ∧ ob.by_.isWord "BY" = true ∧ ob.items ≠ [] := by
  have hfind : ∀ (level depth : Int) (lexemes : List Lexeme) (ob : OrderBy),
      findOrderBy level depth lexemes = some ob →
      textOf lexemes = textOf ob.before ++ (ob.order.text ++ (textOf ob.gap ++ (ob.by_.text ++
        (ob.leading ++ ob.trailing)))) ∧
      ob.order.isWord "ORDER" = true ∧ ob.by_.isWord "BY" = true ∧ ob.items ≠ [] := by
    intro level depth lexemes
    induction lexemes generalizing depth with
    | nil => intro ob h; cases h
    | cons l rest ih =>
      intro ob h
      unfold findOrderBy at h
      split at h
      · next gap by_ list htake =>
        split_ifs at htake with hword
        obtain ⟨hrest, hby⟩ := takeBy_eq htake
        obtain rfl := Option.some.inj h
        refine ⟨?_, hword.2, hby, splitItems_ne_nil 0 [] list⟩
        have hlist := splitItems_text 0 [] list
        rw [textOf_nil, List.nil_append] at hlist
        rw [textOf_cons, hrest, textOf_append, textOf_cons, hlist]
        rfl
      · obtain ⟨found, hfound, rfl⟩ := Option.map_eq_some_iff.1 h
        obtain ⟨htext, hwords⟩ := ih _ _ hfound
        refine ⟨?_, hwords⟩
        rw [textOf_cons, htext]
        exact (List.append_assoc ..).symm
  exact hfind _ _ _ _ h

end Parts

end SqlLexemes
end PgYaap
