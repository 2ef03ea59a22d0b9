import ApiCompat.Proofs.Token.Context
import Mathlib.Data.List.Forall2

/-!
# The words of a text

A `Word` is a lexeme without its place.  `Scans text words` says that a text
splits into these words; `tokenizeFrom` finds them wherever the text begins
(`Scans.tokenizeFrom`), and finds nothing else (`scans_of_tokenizeFrom`).
-/

set_option autoImplicit false

namespace ApiCompat

structure Word where
  kind : TokenKind
  text : String
  /-- The blanks and comments before it, if they matter. -/
  gap : Option String := none

def Lexeme.word (lexeme : Lexeme) : Word := ⟨lexeme.kind, lexeme.text, some lexeme.gap⟩

def Word.Matches (word : Word) (lexeme : Lexeme) : Prop :=
  lexeme.kind = word.kind ∧ lexeme.text = word.text ∧ ∀ gap ∈ word.gap, lexeme.gap = gap

abbrev Spells (words : List Word) (lexemes : List Lexeme) : Prop :=
  List.Forall₂ Word.Matches words lexemes

/-- The text splits into the words up to `tail`, which is left over. -/
inductive ScansTo (tail : List Char) : List Char → List Word → Prop
  | done : ScansTo tail tail []
  | word {text gap rest after : List Char} {word : Word} {later : List Word}
      (cut : splitGap false text = (gap, rest))
      (token : firstToken rest = some (word.kind, word.text.toList, after))
      (spaced : ∀ wanted ∈ word.gap, String.ofList gap = wanted)
      (scans : ScansTo tail after later) : ScansTo tail text (word :: later)

def Scans (text : List Char) (words : List Word) : Prop :=
  ∃ tail, (splitGap false tail).2 = [] ∧ ScansTo tail text words

/-! ## Scanning and tokenizing -/

theorem Scans.blank {text : List Char} (blank : (splitGap false text).2 = []) : Scans text [] :=
  ⟨text, blank, .done⟩

theorem Scans.word {text gap rest after : List Char} {word : Word} {later : List Word}
    (cut : splitGap false text = (gap, rest))
    (token : firstToken rest = some (word.kind, word.text.toList, after))
    (spaced : ∀ wanted ∈ word.gap, String.ofList gap = wanted) (scans : Scans after later) :
    Scans text (word :: later) := by
  obtain ⟨tail, blank, scans⟩ := scans
  exact ⟨tail, blank, .word cut token spaced scans⟩

theorem ScansTo.append {tail text : List Char} {words later : List Word}
    (scans : ScansTo tail text words) (rest : Scans tail later) : Scans text (words ++ later) := by
  induction scans with
  | done => exact rest
  | word cut token spaced _ ih => exact ih.word cut token spaced

theorem Scans.tokenizeFrom {text : List Char} {words : List Word} (scans : Scans text words)
    (start line : Nat) :
    ∃ lexemes, ApiCompat.tokenizeFrom start line text = .ok lexemes ∧ Spells words lexemes := by
  obtain ⟨tail, blank, scans⟩ := scans
  induction scans generalizing start line with
  | done =>
      refine ⟨[], ?_, .nil⟩
      rw [ApiCompat.tokenizeFrom]
      simp [blank]
  | @word text gap rest after word later cut token spaced _ ih =>
      let start := start + (String.ofList gap).utf8ByteSize
      let line := line + lineFeeds gap
      let lexeme : Lexeme :=
        { kind := word.kind, text := String.ofList word.text.toList, gap := String.ofList gap,
          start, line }
      obtain ⟨lexemes, found, spells⟩ := ih lexeme.stop line
      have matched : word.Matches lexeme :=
        ⟨rfl, String.ofList_toList, spaced⟩
      refine ⟨lexeme :: lexemes, ?_, .cons matched spells⟩
      have filled : rest.isEmpty = false := by
        cases rest with
        | nil => simp [firstToken] at token
        | cons _ _ => rfl
      have front : firstToken (splitGap false text).2 =
          some (word.kind, word.text.toList, after) := by
        rw [cut]
        exact token
      rw [ApiCompat.tokenizeFrom]
      simp only [cut, filled, Bool.false_eq_true, if_false]
      split
      · next missing =>
          rw [front] at missing
          cases missing
      · next kind text' after' some =>
          rw [front] at some
          simp only [Option.some.injEq, Prod.mk.injEq] at some
          obtain ⟨rfl, rfl, rfl⟩ := some
          simp only [lexeme, start, line] at found
          rw [found]

theorem scans_of_tokenizeFrom (start line : Nat) (text : List Char) (lexemes : List Lexeme)
    (found : tokenizeFrom start line text = .ok lexemes) :
    Scans text (lexemes.map Lexeme.word) := by
  fun_induction tokenizeFrom start line text generalizing lexemes with
  | case1 start line text cut blank =>
      obtain rfl := Except.ok.inj found
      exact .blank (List.isEmpty_iff.mp blank)
  | case2 => cases found
  | case3 start line text cut start' line' filled kind word after token lexeme later inner ih =>
      obtain rfl := Except.ok.inj found
      refine Scans.word (Prod.ext rfl rfl) ?_ ?_ (ih later inner)
      · rw [token]
        simp [lexeme, Lexeme.word]
      · intro wanted same
        exact Option.some.inj same
  | case4 => cases found

end ApiCompat
