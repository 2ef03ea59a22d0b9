import ApiCompat.Proofs.Cursor.Classes

/-!
# Texts with a cursor

Over any text that splits into lexemes the cursor goes no further than to their
end, every part moves it on, no lexeme is looked up and no piece cut out that is
not there, and no more parentheses are closed than were opened.  So a run comes
to its end, and it ends as the reading of the lexemes does (`run_safe`).
-/

set_option autoImplicit false

namespace ApiCompat.Signature

open Cursor (Source Halt)

/-- How a run ends if the lexemes are read so: with the packages, behind the last lexeme, or with
the fault. -/
def Cursor.ending (lexemes : List Lexeme) :
    Except Fault (OrderedMap String (Located Package)) →
      Except Halt (OrderedMap String (Located Package) × Nat)
  | .ok packages => .ok (packages, lexemes.length)
  | .error fault => .error (.malformed fault)

theorem tracks_packages (source : Source) :
    TracksAt source 0 Cursor.packages (packageBlocks source.lexemes.length .empty) :=
  .look (tracks_packageBlocks.start .empty (Nat.zero_le 0))

theorem readPackages_eq (mode : NullMode) (lexemes : List Lexeme) :
    readPackages mode lexemes =
      (packageBlocks lexemes.length .empty (contextOf mode lexemes) lexemes).map Prod.fst := by
  unfold readPackages contextOf
  dsimp only
  split
  · next read => rw [read, Except.map]
  · next read => rw [read, Except.map]

theorem outcome_run (source : Source) :
    (Cursor.run source).outcome =
      Cursor.ending source.lexemes (readPackages source.mode source.lexemes) := by
  have whole : source.behind 0 = source.lexemes := List.drop_zero
  obtain ⟨_, ⟨packages, _, next, ran, read, _, within, rfl⟩ | ⟨fault, ran, read⟩⟩ :=
    tracks_packages source (Nat.zero_le _)
  · rw [whole] at read
    obtain ⟨atEnd, _⟩ := (packageBlocks_eq_ok_iff le_rfl).mp read
    have last : next = source.lexemes.length :=
      Nat.le_antisymm within (List.drop_eq_nil_iff.mp atEnd)
    rw [Cursor.run, ran, readPackages_eq, ← Source.context, read, last]
    rfl
  · rw [whole] at read
    rw [Cursor.run, ran, readPackages_eq, ← Source.context, read]
    rfl

/-- Nothing is wrong with any point of a run over a text that splits into lexemes, and the run ends
as the reading of the lexemes does. -/
theorem run_safe {text : String} {lexemes : List Lexeme} (split : tokenize text = .ok lexemes)
    (mode : NullMode) :
    (∀ point ∈ (Cursor.run { text, lexemes, mode, split }).points,
      point.Safe { text, lexemes, mode, split }) ∧
    (Cursor.run { text, lexemes, mode, split }).outcome =
      Cursor.ending lexemes (readPackages mode lexemes) :=
  ⟨(tracks_packages { text, lexemes, mode, split } (Nat.zero_le _)).1, outcome_run _⟩

def nestedText : String :=
  "package p \x7b\n class A<T extends B> implements C D \x7b\n" ++
    "  method @X(a=(\"é\")) Map<?, T[]> f(int... i) default \"é\";\n \x7d\n\x7d\n"

theorem tokenize_nestedText :
    tokenize nestedText = .ok ((tokenize nestedText).toOption.getD []) := by
  have splits : (tokenize nestedText).isOk = true := by decide +kernel
  generalize tokenize nestedText = outcome at splits ⊢
  cases outcome with
  | error place => cases splits
  | ok lexemes => rfl

def nested : Source where
  text := nestedText
  lexemes := (tokenize nestedText).toOption.getD []
  mode := .legacy
  split := tokenize_nestedText

theorem run_safe_nested : tokenize nestedText = .ok nested.lexemes ∧
    (∀ point ∈ (Cursor.run nested).points, point.Safe nested) ∧
    (Cursor.run nested).outcome =
      Cursor.ending nested.lexemes (readPackages .legacy nested.lexemes) :=
  ⟨nested.split, run_safe nested.split .legacy⟩

/-- The annotation and the value are cut out by bytes, of which the letter in them has two. -/
example : ((Cursor.run nested).points.filter fun point => point.act matches .slice _ _) =
    [⟨24, .slice 60 72⟩, ⟨40, .slice 105 109⟩] := by decide +kernel

end ApiCompat.Signature
