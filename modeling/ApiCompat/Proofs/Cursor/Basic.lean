import ApiCompat.Proofs.Signature.Places

/-!
# Walking over lexemes with a cursor

A `Walk` goes over all the lexemes of a text, of which it never lets go, and
keeps its place in them as a number, its cursor.  What a reader cannot do wrong
a walk can: look up a lexeme where none is, count parentheses below zero, cut
out a piece that is none of the text, or go round in a loop for ever.  A run
that does so does not go on (`Halt`), and every run tells where the cursor came
and what was done there (`Point`).
-/

set_option autoImplicit false

namespace ApiCompat.Signature.Cursor

/-- A text with the lexemes that it splits into, and the null mode in which they are read. -/
structure Source where
  text : String
  lexemes : List Lexeme
  mode : NullMode
  split : tokenize text = .ok lexemes

namespace Source

def context (source : Source) : Context := contextOf source.mode source.lexemes

def behind (source : Source) (cursor : Nat) : List Lexeme := source.lexemes.drop cursor

variable {source : Source} {cursor : Nat}

theorem length_behind (source : Source) (cursor : Nat) :
    (source.behind cursor).length = source.lexemes.length - cursor := List.length_drop

theorem head?_behind (source : Source) (cursor : Nat) :
    (source.behind cursor).head? = source.lexemes[cursor]? := List.head?_drop

/-- The cursor is at the end, or before a lexeme. -/
theorem cases (source : Source) (cursor : Nat) :
    (source.lexemes[cursor]? = none ∧ source.behind cursor = []) ∨
      ∃ next, source.lexemes[cursor]? = some next ∧ cursor < source.lexemes.length ∧
        source.behind cursor = next :: source.behind (cursor + 1) := by
  rcases Nat.lt_or_ge cursor source.lexemes.length with inside | beyond
  · exact .inr ⟨_, List.getElem?_eq_getElem inside, inside, List.drop_eq_getElem_cons inside⟩
  · exact .inl ⟨List.getElem?_eq_none beyond, List.drop_eq_nil_of_le beyond⟩

/-- A reader that leaves fewer lexemes leaves the cursor further on. -/
theorem lt_of_behind {first : Lexeme} {piece : List Lexeme} {next : Nat}
    (whole : source.behind cursor = first :: piece ++ source.behind next) : cursor < next := by
  have lengths := congrArg List.length whole
  rw [List.length_append, source.length_behind, source.length_behind, List.length_cons] at lengths
  omega

end Source

/-! ## Points of a run -/

/-- What a text is made of, as far as a walk of its own goes over it. -/
inductive Part where
  | name
  | annotationUse
  | type
  | typeParams
  | typeList
  | member
  | classDecl
deriving DecidableEq

inductive Act where
  /-- The cursor has come here. -/
  | move
  /-- The lexeme of this index is looked up. -/
  | lookUp (index : Int)
  /-- So many parentheses of an annotation are open now. -/
  | count (depth : Int)
  /-- The text from one byte to another is cut out. -/
  | slice (start stop : Nat)
  /-- A part that began at another place has come to its end. -/
  | finish (part : Part) (since : Nat)
deriving DecidableEq

structure Point where
  cursor : Nat
  act : Act
deriving DecidableEq

def Act.Safe (source : Source) (cursor : Nat) : Act → Prop
  | .move => True
  | .lookUp index => 0 ≤ index ∧ index < source.lexemes.length
  | .count depth => 0 ≤ depth
  | .slice start stop => start < stop ∧ (String.Pos.Raw.mk start).IsValid source.text ∧
      (String.Pos.Raw.mk stop).IsValid source.text
  | .finish _ since => since < cursor

structure Point.Safe (source : Source) (point : Point) : Prop where
  inside : point.cursor ≤ source.lexemes.length
  act : point.act.Safe source point.cursor

/-- Why a run does not go on. -/
inductive Halt where
  /-- The text is malformed. -/
  | malformed (fault : Fault)
  /-- An index, a depth or a slice is out of its bounds. -/
  | crashed
  /-- A loop has used up its rounds. -/
  | endless
deriving DecidableEq

structure Run (α : Type) where
  /-- The value and where the cursor is left. -/
  outcome : Except Halt (α × Nat)
  points : List Point

/-- Finds a value on the way from a place of the cursor. -/
def Walk (α : Type) : Type := Source → Nat → Run α

variable {α β : Type}

def result (value : α) : Walk α := fun _ cursor => ⟨.ok (value, cursor), []⟩

def andThen (walk : Walk α) (next : α → Walk β) : Walk β := fun source cursor =>
  let first := walk source cursor
  match first.outcome with
  | .ok (value, cursor) =>
      let later := next value source cursor
      ⟨later.outcome, first.points ++ later.points⟩
  | .error halt => ⟨.error halt, first.points⟩

instance : Monad Walk where
  pure := result
  bind := andThen

/-! ## Looking around -/

def look (see : Source → Nat → α) : Walk α := fun source cursor =>
  ⟨.ok (see source cursor, cursor), []⟩

def position : Walk Nat := look fun _ cursor => cursor

def ahead (offset : Nat) : Walk (Option Lexeme) :=
  look fun source cursor => source.lexemes[cursor + offset]?

def here : Walk (Option Lexeme) := look fun source cursor => source.lexemes[cursor]?

def sees (test : Lexeme → Bool) : Walk Bool :=
  look fun source cursor => source.lexemes[cursor]?.any test

def isHere (kind : TokenKind) : Walk Bool := sees fun lexeme => lexeme.kind == kind

/-- The line of the lexeme at the cursor, or of the last one at the end. -/
def currentLine : Walk Nat :=
  look fun source cursor => (source.lexemes[cursor]?.map Lexeme.line).getD (lastLine source.lexemes)

def nullMode : Walk NullMode := look fun source _ => source.mode

/-- One more round than there are lexemes: enough for a loop that takes one a round. -/
def rounds : Walk Nat := look fun source _ => source.lexemes.length + 1

/-! ## Giving up -/

def halt (reason : Halt) : Walk α := fun _ _ => ⟨.error reason, []⟩

def failAt (line : Nat) (reason : Reason) : Walk α := halt (.malformed { line, reason })

def unexpected (expected : Expected) : Walk α := do
  failAt (← currentLine)
    (.unexpected expected ((← here).map fun lexeme => (lexeme.kind, lexeme.text)))

/-! ## Moving on -/

def move (steps : Nat) : Walk Unit := fun _ cursor =>
  ⟨.ok ((), cursor + steps), [⟨cursor + steps, .move⟩]⟩

def advance : Walk (Option Lexeme) := do
  match ← here with
  | some lexeme =>
      move 1
      return some lexeme
  | none => return none

/-- Moves on if the lexeme at the cursor passes the test, and says whether it did. -/
def eatIf (test : Lexeme → Bool) : Walk Bool := do
  if ← sees test then
    move 1
    return true
  else return false

def eat (kind : TokenKind) : Walk Bool := eatIf fun lexeme => lexeme.kind == kind

def eatWord (word : String) : Walk Bool := eatIf fun lexeme => lexeme.isWord word

def expectKind (kind : TokenKind) (expected : Expected) : Walk Lexeme := do
  match ← here with
  | some lexeme =>
      if lexeme.kind = kind then
        move 1
        return lexeme
      else unexpected expected
  | none => unexpected expected

def expect (kind : TokenKind) : Walk Lexeme := expectKind kind (.token kind)

def identifier (expected : Expected) : Walk Lexeme := expectKind .identifier expected

/-! ## What can go wrong -/

/-- The lexeme of an index, which has to be there. -/
def lookUp (index : Int) : Walk Lexeme := fun source cursor =>
  { outcome :=
      match if 0 ≤ index then source.lexemes[index.toNat]? else none with
      | some lexeme => .ok (lexeme, cursor)
      | none => .error .crashed
    points := [⟨cursor, .lookUp index⟩] }

/-- States how many parentheses are open, which cannot be less than none. -/
def count (depth : Int) : Walk Unit := fun _ cursor =>
  { outcome := if 0 ≤ depth then .ok ((), cursor) else .error .crashed
    points := [⟨cursor, .count depth⟩] }

/-- The text from one byte to another, both of which have to be boundaries of characters. -/
def slice (start stop : Nat) : Walk String := fun source cursor =>
  { outcome :=
      if start ≤ stop ∧ (String.Pos.Raw.mk start).IsValid source.text ∧
          (String.Pos.Raw.mk stop).IsValid source.text then
        .ok (String.Pos.Raw.extract source.text ⟨start⟩ ⟨stop⟩, cursor)
      else .error .crashed
    points := [⟨cursor, .slice start stop⟩] }

def part (which : Part) (walk : Walk α) : Walk α := do
  let since ← position
  let value ← walk
  finish which since
  return value
where
  finish (which : Part) (since : Nat) : Walk Unit := fun _ cursor =>
    ⟨.ok ((), cursor), [⟨cursor, .finish which since⟩]⟩

end ApiCompat.Signature.Cursor
