import ApiCompat.Token.Lexer
import Mathlib.Computability.Language

/-!
# Patterns of lexemes

What counts as a lexeme, a run of blanks or a comment is a regular expression
over characters (`LexRule.pattern`).  A word that matches one has a plain shape
(`LexRule.Matches`), which is told from its first characters.
-/

set_option autoImplicit false

open scoped Computability

namespace ApiCompat

/-! ## Regular expressions -/

def oneOf (inClass : Char → Bool) : Language Char := {word | ∃ c, inClass c = true ∧ word = [c]}

def exactly (word : String) : Language Char := {word.toList}

def inRange (first last c : Char) : Bool := decide (first ≤ c) && decide (c ≤ last)

def isDecimal (c : Char) : Bool := inRange '0' '9' c

def isLetter (c : Char) : Bool := inRange 'A' 'Z' c || inRange 'a' 'z' c

/-- What may stand between quotes: plain characters and backslash escapes, without line breaks. -/
def quotedText (quote : Char) : Language Char :=
  (oneOf (fun c => c != quote && c != '\\' && c != '\n') + exactly "\\" * oneOf (· != '\n'))∗

def quoted (quote : Char) : Language Char :=
  exactly (String.ofList [quote]) * quotedText quote * exactly (String.ofList [quote])

def numberTail : Language Char :=
  (oneOf (fun c => isDecimal c || isLetter c || c == '_' || c == '.') +
    oneOf (fun c => c == 'e' || c == 'E') * oneOf (fun c => c == '+' || c == '-'))∗

def TokenKind.pattern : TokenKind → Language Char
  | identifier =>
      oneOf (fun c => isLetter c || c == '_' || c == '$') *
        (oneOf fun c => isLetter c || isDecimal c || c == '_' || c == '$')∗
  | number => (1 + exactly "-") * oneOf isDecimal * numberTail
  | stringLiteral => quoted '"'
  | charLiteral => quoted '\''
  | leftBrace => exactly "\x7b"
  | rightBrace => exactly "\x7d"
  | leftParen => exactly "("
  | rightParen => exactly ")"
  | less => exactly "<"
  | greater => exactly ">"
  | leftBracket => exactly "["
  | rightBracket => exactly "]"
  | comma => exactly ","
  | semicolon => exactly ";"
  | ellipsis => exactly "..."
  | dot => exactly "."
  | question => exactly "?"
  | bang => exactly "!"
  | atSign => exactly "@"
  | equals => exactly "="
  | ampersand => exactly "&"
  | operator => oneOf "+-*/%|^~:#".toList.contains

/-- What a piece of a source can be: something between lexemes, or a lexeme. -/
inductive LexRule where
  | blanks
  | comment
  | token (kind : TokenKind)

def LexRule.pattern : LexRule → Language Char
  | blanks => oneOf " \t\r\n\x0c".toList.contains * (oneOf " \t\r\n\x0c".toList.contains)∗
  | comment => exactly "//" * (oneOf (· != '\n'))∗
  | token kind => kind.pattern

/-! ### Membership -/

theorem mem_exactly {word : List Char} {text : String} : word ∈ exactly text ↔ word = text.toList :=
  Iff.rfl

theorem mem_oneOf_kstar {inClass : Char → Bool} {word : List Char} :
    word ∈ (oneOf inClass)∗ ↔ ∀ c ∈ word, inClass c = true := by
  rw [Language.mem_kstar]
  constructor
  · rintro ⟨pieces, rfl, single⟩ c member
    obtain ⟨piece, listed, inPiece⟩ := List.mem_flatten.mp member
    obtain ⟨c', known, rfl⟩ := single piece listed
    rw [List.mem_singleton.mp inPiece]
    exact known
  · intro all
    refine ⟨word.map fun c => [c], by simp [← List.flatMap_def], ?_⟩
    intro piece listed
    obtain ⟨c, member, rfl⟩ := List.mem_map.mp listed
    exact ⟨c, all c member, rfl⟩

theorem mem_oneOf_mul {inClass : Char → Bool} {rest : Language Char} {word : List Char} :
    word ∈ oneOf inClass * rest ↔
      ∃ c later, inClass c = true ∧ later ∈ rest ∧ word = c :: later := by
  rw [Language.mem_mul]
  constructor
  · rintro ⟨_, ⟨c, known, rfl⟩, later, matched, rfl⟩
    exact ⟨c, later, known, matched, rfl⟩
  · rintro ⟨c, later, known, matched, rfl⟩
    exact ⟨[c], ⟨c, known, rfl⟩, later, matched, rfl⟩

theorem mem_exactly_mul {text : String} {rest : Language Char} {word : List Char} :
    word ∈ exactly text * rest ↔ ∃ later ∈ rest, word = text.toList ++ later := by
  rw [Language.mem_mul]
  constructor
  · rintro ⟨_, rfl, later, matched, rfl⟩
    exact ⟨later, matched, rfl⟩
  · rintro ⟨later, matched, rfl⟩
    exact ⟨_, rfl, later, matched, rfl⟩

/-! ### Character classes -/

theorem isDecimal_eq (c : Char) : isDecimal c = c.isDigit := rfl

theorem isLetter_eq (c : Char) : isLetter c = c.isAlpha := by
  have upper : c.isUpper = decide ('A' ≤ c ∧ c ≤ 'Z') := rfl
  have lower : c.isLower = (decide ('a' ≤ c) && decide (c ≤ 'z')) := rfl
  have letter : c.isAlpha = (c.isUpper || c.isLower) := rfl
  rw [letter, upper, lower, Bool.decide_and]
  rfl

theorem isBlank_eq (c : Char) : " \t\r\n\x0c".toList.contains c = isGapChar c := by
  have chars : " \t\r\n\x0c".toList = [' ', '\t', '\r', '\n', '\x0c'] := rfl
  rw [chars]
  simp only [List.contains_cons, List.contains_nil, isGapChar, Bool.or_false, Bool.or_assoc]

theorem isOperator_iff (c : Char) :
    "+-*/%|^~:#".toList.contains c = true ↔ punctuation? c = some .operator := by
  constructor
  · intro listed
    have chars : c ∈ ['+', '-', '*', '/', '%', '|', '^', '~', ':', '#'] :=
      List.contains_iff_mem.mp listed
    simp only [List.mem_cons, List.not_mem_nil, or_false] at chars
    rcases chars with rfl | rfl | rfl | rfl | rfl | rfl | rfl | rfl | rfl | rfl <;> rfl
  · intro known
    unfold punctuation? at known
    split at known <;> first | rfl | cases known

theorem isIdentStart_eq (c : Char) : (isLetter c || c == '_' || c == '$') = isIdentStart c := by
  rw [isLetter_eq, isIdentStart]

theorem isIdentPart_eq (c : Char) :
    (isLetter c || isDecimal c || c == '_' || c == '$') = isIdentPart c := by
  rw [isLetter_eq, isDecimal_eq, isIdentPart, isIdentStart]
  ac_rfl

theorem isNumberPart_eq (c : Char) :
    (isDecimal c || isLetter c || c == '_' || c == '.') = isNumberPart c := by
  rw [isLetter_eq, isDecimal_eq, isNumberPart, Char.isAlphanum, Bool.or_comm c.isDigit]

/-! ## Shapes of words -/

/-- The rule matches the word, which is told by how the word begins. -/
inductive LexRule.Matches : LexRule → List Char → Prop
  | blanks {c : Char} {rest : List Char} (all : ∀ c' ∈ c :: rest, isGapChar c' = true) :
      Matches .blanks (c :: rest)
  | comment {rest : List Char} (oneLine : ∀ c ∈ rest, c ≠ '\n') :
      Matches .comment ('/' :: '/' :: rest)
  | identifier {c : Char} {rest : List Char} (start : isIdentStart c = true)
      (parts : ∀ c' ∈ rest, isIdentPart c' = true) : Matches (.token .identifier) (c :: rest)
  | number {c : Char} {rest : List Char} (digit : c.isDigit = true) (tail : rest ∈ numberTail) :
      Matches (.token .number) (c :: rest)
  | negative {c : Char} {rest : List Char} (digit : c.isDigit = true) (tail : rest ∈ numberTail) :
      Matches (.token .number) ('-' :: c :: rest)
  | literal {c : Char} {kind : TokenKind} {elements : List Char} (opens : literal? c = some kind)
      (inner : elements ∈ quotedText c) : Matches (.token kind) (c :: (elements ++ [c]))
  | ellipsis : Matches (.token .ellipsis) ['.', '.', '.']
  | single {c : Char} {kind : TokenKind} (known : punctuation? c = some kind) :
      Matches (.token kind) [c]

theorem mem_quoted {quote : Char} {word : List Char} :
    word ∈ quoted quote ↔ ∃ elements ∈ quotedText quote, word = quote :: (elements ++ [quote]) := by
  rw [quoted, mul_assoc, mem_exactly_mul]
  simp only [Language.mem_mul, mem_exactly, String.toList_ofList]
  constructor
  · rintro ⟨_, ⟨elements, inner, _, rfl, rfl⟩, rfl⟩
    exact ⟨elements, inner, rfl⟩
  · rintro ⟨elements, inner, rfl⟩
    exact ⟨_, ⟨elements, inner, _, rfl, rfl⟩, rfl⟩

theorem mem_number {word : List Char} :
    word ∈ TokenKind.number.pattern ↔ ∃ c rest, c.isDigit = true ∧ rest ∈ numberTail ∧
      (word = c :: rest ∨ word = '-' :: c :: rest) := by
  have digits : isDecimal = Char.isDigit := funext isDecimal_eq
  rw [TokenKind.pattern, mul_assoc, add_mul, one_mul, digits, Language.mem_add, mem_exactly_mul]
  simp only [mem_oneOf_mul]
  constructor
  · rintro (⟨c, rest, digit, tail, rfl⟩ | ⟨_, ⟨c, rest, digit, tail, rfl⟩, rfl⟩)
    · exact ⟨c, rest, digit, tail, .inl rfl⟩
    · exact ⟨c, rest, digit, tail, .inr rfl⟩
  · rintro ⟨c, rest, digit, tail, rfl | rfl⟩
    · exact .inl ⟨c, rest, digit, tail, rfl⟩
    · exact .inr ⟨_, ⟨c, rest, digit, tail, rfl⟩, rfl⟩

theorem mem_pattern_single {c : Char} {kind : TokenKind} (known : punctuation? c = some kind) :
    [c] ∈ kind.pattern := by
  by_cases operator : kind = .operator
  · rw [operator] at known ⊢
    exact ⟨c, (isOperator_iff c).mpr known, rfl⟩
  · unfold punctuation? at known
    split at known <;> cases known <;> first | exact rfl | exact absurd rfl operator

/-- The words of a rule are those of its shape. -/
theorem mem_pattern_iff {rule : LexRule} {word : List Char} :
    word ∈ rule.pattern ↔ rule.Matches word := by
  have blanks : " \t\r\n\x0c".toList.contains = isGapChar := funext isBlank_eq
  have starts : (fun c => isLetter c || c == '_' || c == '$') = isIdentStart :=
    funext isIdentStart_eq
  have parts : (fun c => isLetter c || isDecimal c || c == '_' || c == '$') = isIdentPart :=
    funext isIdentPart_eq
  constructor
  · intro matched
    cases rule with
    | blanks =>
        rw [LexRule.pattern, blanks, mem_oneOf_mul] at matched
        obtain ⟨c, rest, first, later, rfl⟩ := matched
        exact .blanks (List.forall_mem_cons.mpr ⟨first, mem_oneOf_kstar.mp later⟩)
    | comment =>
        rw [LexRule.pattern, mem_exactly_mul] at matched
        obtain ⟨rest, later, rfl⟩ := matched
        exact .comment fun c member => by simpa using mem_oneOf_kstar.mp later c member
    | token kind =>
        rw [LexRule.pattern] at matched
        cases kind with
        | identifier =>
            rw [TokenKind.pattern, starts, parts, mem_oneOf_mul] at matched
            obtain ⟨c, rest, start, later, rfl⟩ := matched
            exact .identifier start (mem_oneOf_kstar.mp later)
        | number =>
            obtain ⟨c, rest, digit, tail, rfl | rfl⟩ := mem_number.mp matched
            · exact .number digit tail
            · exact .negative digit tail
        | stringLiteral | charLiteral =>
            obtain ⟨elements, inner, rfl⟩ := mem_quoted.mp matched
            exact .literal rfl inner
        | ellipsis =>
            obtain rfl := mem_exactly.mp matched
            exact .ellipsis
        | operator =>
            obtain ⟨c, known, rfl⟩ := matched
            exact .single ((isOperator_iff c).mp known)
        | _ =>
            obtain rfl := mem_exactly.mp matched
            exact .single rfl
  · intro shape
    cases shape with
    | blanks all =>
        rw [LexRule.pattern, blanks, mem_oneOf_mul]
        obtain ⟨first, later⟩ := List.forall_mem_cons.mp all
        exact ⟨_, _, first, mem_oneOf_kstar.mpr later, rfl⟩
    | comment oneLine =>
        rw [LexRule.pattern, mem_exactly_mul]
        exact ⟨_, mem_oneOf_kstar.mpr (by simpa using oneLine), rfl⟩
    | identifier start all =>
        rw [LexRule.pattern, TokenKind.pattern, starts, parts, mem_oneOf_mul]
        exact ⟨_, _, start, mem_oneOf_kstar.mpr all, rfl⟩
    | number digit tail => exact mem_number.mpr ⟨_, _, digit, tail, .inl rfl⟩
    | negative digit tail => exact mem_number.mpr ⟨_, _, digit, tail, .inr rfl⟩
    | literal opens inner =>
        unfold literal? at opens
        split at opens <;> cases opens
        · exact mem_quoted.mpr ⟨_, inner, rfl⟩
        · exact mem_quoted.mpr ⟨_, inner, rfl⟩
    | ellipsis => exact rfl
    | single known => exact mem_pattern_single known

end ApiCompat
