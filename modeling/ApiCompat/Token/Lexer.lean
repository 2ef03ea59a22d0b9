import ApiCompat.Text.Lines
import ApiCompat.Token.Basic

/-!
# Splitting a signature text into lexemes

Blanks and `//` comments separate lexemes and are otherwise dropped.  What
stands at the front of the remaining text is read as far as it can be read as
one lexeme (`firstToken`); nothing is lost or reordered on the way
(`splitGap_append`, `firstToken_append`).
-/

set_option autoImplicit false

namespace ApiCompat

/-! ## Gaps -/

def isGapChar (c : Char) : Bool :=
  c == ' ' || c == '\t' || c == '\r' || c == '\n' || c == '\x0c'

/-- Cuts off the blanks and comments at the front.  A comment lasts up to the
next line feed; `inComment` says whether the text begins inside one. -/
def splitGap (inComment : Bool) : List Char → List Char × List Char
  | [] => ([], [])
  | c :: rest =>
      if inComment then
        let later := splitGap (c != '\n') rest
        (c :: later.1, later.2)
      else if isGapChar c then
        let later := splitGap false rest
        (c :: later.1, later.2)
      else if c = '/' ∧ rest.head? = some '/' then
        let later := splitGap true rest
        (c :: later.1, later.2)
      else ([], c :: rest)

theorem splitGap_append (inComment : Bool) (text : List Char) :
    (splitGap inComment text).1 ++ (splitGap inComment text).2 = text := by
  induction text generalizing inComment with
  | nil => rfl
  | cons c rest ih =>
      simp only [splitGap]
      split
      · simp [ih]
      · split
        · simp [ih]
        · split
          · simp [ih]
          · simp

theorem splitGap_length_le (inComment : Bool) (text : List Char) :
    (splitGap inComment text).2.length ≤ text.length := by
  have whole := congrArg List.length (splitGap_append inComment text)
  rw [List.length_append] at whole
  omega

/-! ## Single lexemes -/

def isIdentStart (c : Char) : Bool := c.isAlpha || c == '_' || c == '$'

def isIdentPart (c : Char) : Bool := isIdentStart c || c.isDigit

def isNumberPart (c : Char) : Bool := c.isAlphanum || c == '_' || c == '.'

/-- Cuts off what continues a number: digits, letters, underscores, points, and
a sign that directly follows the letter of an exponent. -/
def splitNumber (afterExponent : Bool) : List Char → List Char × List Char
  | [] => ([], [])
  | c :: rest =>
      if isNumberPart c || (afterExponent && (c == '+' || c == '-')) then
        let later := splitNumber (c == 'e' || c == 'E') rest
        (c :: later.1, later.2)
      else ([], c :: rest)

/-- Cuts off the elements of a literal after its opening quote: single
characters and backslash escapes, none of them a line break.  The second part
is the text after the closing quote, if the literal is closed. -/
def splitLiteral (quote : Char) : List Char → List Char × Option (List Char)
  | [] => ([], none)
  | '\\' :: escaped :: rest =>
      if escaped = '\n' then ([], none)
      else
        let later := splitLiteral quote rest
        ('\\' :: escaped :: later.1, later.2)
  | c :: rest =>
      if c = quote then ([], some rest)
      else if c = '\n' ∨ c = '\\' then ([], none)
      else
        let later := splitLiteral quote rest
        (c :: later.1, later.2)

def punctuation? : Char → Option TokenKind
  | '\x7b' => some .leftBrace
  | '\x7d' => some .rightBrace
  | '(' => some .leftParen
  | ')' => some .rightParen
  | '<' => some .less
  | '>' => some .greater
  | '[' => some .leftBracket
  | ']' => some .rightBracket
  | ',' => some .comma
  | ';' => some .semicolon
  | '.' => some .dot
  | '?' => some .question
  | '!' => some .bang
  | '@' => some .atSign
  | '=' => some .equals
  | '&' => some .ampersand
  | '+' | '-' | '*' | '/' | '%' | '|' | '^' | '~' | ':' | '#' => some .operator
  | _ => none

def literal? : Char → Option TokenKind
  | '"' => some .stringLiteral
  | '\'' => some .charLiteral
  | _ => none

/-- The longest lexeme at the front of a text, as its kind, its text and what
follows.  The text must not begin with a gap. -/
def firstToken : List Char → Option (TokenKind × List Char × List Char)
  | [] => none
  | c :: rest =>
      if isIdentStart c then
        some (.identifier, c :: rest.takeWhile isIdentPart, rest.dropWhile isIdentPart)
      else if c.isDigit || (c == '-' && rest.head?.any Char.isDigit) then
        let later := splitNumber false rest
        some (.number, c :: later.1, later.2)
      else match literal? c with
        | some kind =>
            match splitLiteral c rest with
            | (elements, some after) => some (kind, c :: (elements ++ [c]), after)
            | (_, none) => none
        | none =>
            if c = '.' ∧ rest.take 2 = ['.', '.'] then
              some (.ellipsis, ['.', '.', '.'], rest.drop 2)
            else (punctuation? c).map fun kind => (kind, [c], rest)

/-- The text complained about where no lexeme can be read: of an open literal
all its complete elements, otherwise one character. -/
def unreadableText : List Char → List Char
  | [] => []
  | c :: rest =>
      match literal? c with
      | some _ => c :: (splitLiteral c rest).1
      | none => [c]

theorem splitNumber_append (afterExponent : Bool) (text : List Char) :
    (splitNumber afterExponent text).1 ++ (splitNumber afterExponent text).2 = text := by
  induction text generalizing afterExponent with
  | nil => rfl
  | cons c rest ih =>
      simp only [splitNumber]
      split
      · simp [ih]
      · simp

theorem splitLiteral_append (quote : Char) (text elements after : List Char)
    (closed : splitLiteral quote text = (elements, some after)) :
    elements ++ quote :: after = text := by
  fun_induction splitLiteral quote text generalizing elements with
  | case1 => simp at closed
  | case2 => simp at closed
  | case3 escaped rest _ later ih =>
      simp only [Prod.mk.injEq] at closed
      obtain ⟨rfl, found⟩ := closed
      have inner := ih later.1 (Prod.ext rfl found)
      simp [inner]
  | case4 rest =>
      simp only [Prod.mk.injEq, Option.some.injEq] at closed
      obtain ⟨rfl, rfl⟩ := closed
      rfl
  | case5 => simp at closed
  | case6 c rest _ _ _ later ih =>
      simp only [Prod.mk.injEq] at closed
      obtain ⟨rfl, found⟩ := closed
      have inner := ih later.1 (Prod.ext rfl found)
      simp [inner]

/-- A lexeme is a front part of the text, and it is not empty. -/
theorem firstToken_append (text word after : List Char) (kind : TokenKind)
    (found : firstToken text = some (kind, word, after)) :
    word ++ after = text ∧ word ≠ [] := by
  cases text with
  | nil => simp [firstToken] at found
  | cons c rest =>
      simp only [firstToken] at found
      split at found
      · simp only [Option.some.injEq, Prod.mk.injEq] at found
        obtain ⟨_, rfl, rfl⟩ := found
        exact ⟨by rw [List.cons_append, List.takeWhile_append_dropWhile], by simp⟩
      · split at found
        · simp only [Option.some.injEq, Prod.mk.injEq] at found
          obtain ⟨_, rfl, rfl⟩ := found
          exact ⟨by rw [List.cons_append, splitNumber_append], by simp⟩
        · split at found
          · split at found
            · next elements after' closed =>
                simp only [Option.some.injEq, Prod.mk.injEq] at found
                obtain ⟨_, rfl, rfl⟩ := found
                have whole := splitLiteral_append c rest elements after' closed
                exact ⟨by simp [← whole], by simp⟩
            · simp at found
          · split at found
            · next dots =>
                simp only [Option.some.injEq, Prod.mk.injEq] at found
                obtain ⟨_, rfl, rfl⟩ := found
                refine ⟨?_, by simp⟩
                have whole := List.take_append_drop 2 rest
                rw [dots.2] at whole
                rw [dots.1]
                exact congrArg (List.cons '.') whole
            · simp only [Option.map_eq_some_iff, Prod.mk.injEq] at found
              obtain ⟨_, _, _, rfl, rfl⟩ := found
              exact ⟨rfl, by simp⟩

theorem firstToken_length_lt (text word after : List Char) (kind : TokenKind)
    (found : firstToken text = some (kind, word, after)) : after.length < text.length := by
  obtain ⟨whole, filled⟩ := firstToken_append text word after kind found
  have lengths := congrArg List.length whole
  have positive := List.length_pos_iff.mpr filled
  rw [List.length_append] at lengths
  omega

/-! ## Whole texts -/

structure Unreadable where
  line : Nat
  text : String
deriving DecidableEq

/-- The lexemes of the remaining text, which begins after `start` bytes on line `line`. -/
def tokenizeFrom (start line : Nat) (text : List Char) : Except Unreadable (List Lexeme) :=
  let cut := splitGap false text
  let start := start + (String.ofList cut.1).utf8ByteSize
  let line := line + lineFeeds cut.1
  if cut.2.isEmpty then .ok []
  else
    match _found : firstToken cut.2 with
    | none => .error { line, text := String.ofList (unreadableText cut.2) }
    | some (kind, word, after) =>
        let lexeme : Lexeme :=
          { kind, text := String.ofList word, gap := String.ofList cut.1, start, line }
        match tokenizeFrom lexeme.stop line after with
        | .ok later => .ok (lexeme :: later)
        | .error fault => .error fault
termination_by text.length
decreasing_by
  have shorter := firstToken_length_lt cut.2 word after kind _found
  have bound : cut.2.length ≤ text.length := splitGap_length_le false text
  omega

def tokenize (text : String) : Except Unreadable (List Lexeme) :=
  tokenizeFrom 0 1 text.toList

end ApiCompat
