import ApiCompat.Proofs.Faults.Lines
import ApiCompat.Proofs.Token.Split

/-!
# Where the fault of a text is

A header is at fault on the first line that is not blank, a text that cannot be
cut into lexemes on the line where the cutting stops, and lexemes that are no
blocks on the line of one of them (`FaultAt`).  So the line of a fault is one of
the text (`read_fault_placed`).
-/

set_option autoImplicit false

namespace ApiCompat

/-! ## Lines of a text -/

theorem length_splitLines (text : List Char) : (splitLines text).length = lineFeeds text + 1 := by
  induction text with
  | nil => rfl
  | cons c text ih =>
      rw [splitLines, lineFeeds, List.count_cons]
      by_cases feed : c = '\n'
      · simp [feed, ih, lineFeeds]
      · cases shape : splitLines text with
        | nil => simp [shape] at ih
        | cons line lines =>
            rw [shape] at ih
            simpa [feed, lineFeeds] using ih

theorem StandsIn.line_le {source : String} {lexeme : Lexeme} (stands : StandsIn source lexeme) :
    1 ≤ lexeme.line ∧ lexeme.line ≤ 1 + lineFeeds source.toList := by
  obtain ⟨front, back, rfl, _, line, _⟩ := stands.cut
  rw [line, String.toList_append, String.toList_append, lineFeeds_append, lineFeeds_append]
  omega

theorem StuckAt.line_le {source : String} {line : Nat} {front tail : List Char}
    {lexemes : List Lexeme} (stuck : StuckAt source line front tail lexemes) :
    1 ≤ line ∧ line ≤ 1 + lineFeeds source.toList := by
  rw [stuck.place, stuck.whole, lineFeeds_append]
  omega

namespace Signature

/-! ## Headers -/

/-- The first line of the text that is not blank has this number. -/
def FirstContent (text : List Char) (number : Nat) : Prop :=
  ∃ before line after, splitLines text = before ++ line :: after ∧
    number = before.length + 1 ∧ trim line ≠ [] ∧ ∀ blank ∈ before, trim blank = []

theorem firstContentFrom_cut {start number : Nat} {lines : List (List Char)} {content : List Char}
    (found : firstContentFrom start lines = some (number, content)) :
    ∃ before line after, lines = before ++ line :: after ∧ number = before.length + start ∧
      trim line ≠ [] ∧ ∀ blank ∈ before, trim blank = [] := by
  induction lines generalizing start with
  | nil => cases found
  | cons line lines ih =>
      rw [firstContentFrom] at found
      by_cases blank : trim line = []
      · simp only [blank, List.isEmpty_nil, if_true] at found
        obtain ⟨before, content, after, rfl, rfl, filled, blanks⟩ := ih found
        refine ⟨line :: before, content, after, rfl, ?_, filled,
          List.forall_mem_cons.mpr ⟨blank, blanks⟩⟩
        rw [List.length_cons]
        omega
      · rw [if_neg (by simpa using blank)] at found
        obtain ⟨rfl, _⟩ := Prod.mk.inj (Option.some.inj found)
        exact ⟨[], line, lines, rfl, (Nat.zero_add _).symm, blank, List.forall_mem_nil _⟩

theorem header?_firstContent {text : List Char} {number : Nat} {version : String}
    (stated : header? text = some (number, version)) : FirstContent text number := by
  obtain ⟨⟨first, content⟩, found, stated⟩ := Option.bind_eq_some_iff.mp stated
  obtain ⟨_, _, same⟩ := Option.bind_eq_some_iff.mp stated
  obtain ⟨rfl, _⟩ := Prod.mk.inj (Option.some.inj same)
  exact firstContentFrom_cut found

/-- Only a header is at fault before a text is cut into lexemes. -/
theorem resolveMode_firstContent {text : List Char} {requested : Option NullMode} {fault : Fault}
    (failed : resolveMode text requested = .error fault) : FirstContent text fault.line := by
  unfold resolveMode at failed
  split at failed
  · cases failed
  · next line version stated =>
    have first := header?_firstContent stated
    split at failed
    · obtain rfl := Except.error.inj failed
      exact first
    · split at failed
      · cases failed
      · split at failed
        · cases failed
        · obtain rfl := Except.error.inj failed
          exact first

theorem FirstContent.line_le {text : List Char} {number : Nat} (first : FirstContent text number) :
    1 ≤ number ∧ number ≤ 1 + lineFeeds text := by
  obtain ⟨before, line, after, whole, rfl, _⟩ := first
  have length := length_splitLines text
  rw [whole, List.length_append, List.length_cons] at length
  omega

/-! ## Texts -/

/-- Where a text is at fault. -/
inductive FaultAt (text : String) (requested : Option NullMode) (fault : Fault) : Prop
  | header (failed : resolveMode text.toList requested = .error fault)
      (first : FirstContent text.toList fault.line)
  | unreadable {mode : NullMode} {place : Unreadable} {front tail : List Char}
      {lexemes : List Lexeme} (resolved : resolveMode text.toList requested = .ok mode)
      (failed : tokenize text = .error place) (reason : fault.reason = .unreadable place.text)
      (stuck : StuckAt text fault.line front tail lexemes)
  | lexeme {mode : NullMode} {front rest : List Lexeme} {lexeme : Lexeme}
      (resolved : resolveMode text.toList requested = .ok mode)
      (cut : tokenize text = .ok (front ++ lexeme :: rest)) (stands : StandsIn text lexeme)
      (blamed : BlamedAt front lexeme rest fault) (undecided : Undecided mode front fault)

theorem FaultAt.line_le {text : String} {requested : Option NullMode} {fault : Fault}
    (placed : FaultAt text requested fault) :
    1 ≤ fault.line ∧ fault.line ≤ 1 + lineFeeds text.toList := by
  cases placed with
  | header failed first => exact first.line_le
  | unreadable resolved failed reason stuck => exact stuck.line_le
  | lexeme resolved cut stands blamed undecided =>
      rw [blamed.line]
      exact stands.line_le

theorem faultAt_of_read {source text : String} {requested : Option NullMode} {fault : Fault}
    (failed : read source text requested = .error fault) : FaultAt text requested fault := by
  unfold read at failed
  cases resolved : resolveMode text.toList requested with
  | error earlier =>
      rw [resolved] at failed
      obtain rfl := Except.error.inj failed
      exact .header resolved (resolveMode_firstContent resolved)
  | ok mode =>
      have explained : Explains [] text.toList (tokenize text) :=
        tokenizeFrom_explained [] text.toList
      simp only [resolved] at failed
      cases cut : tokenize text with
      | error place =>
          rw [cut] at failed explained
          obtain rfl := Except.error.inj failed
          obtain ⟨front, tail, lexemes, whole, splits, filled, stuck, line⟩ := explained
          exact .unreadable resolved cut rfl ⟨whole, splits, filled, stuck, line⟩
      | ok lexemes =>
          have splits : Splits [] [] [] text.toList lexemes := by
            rwa [cut] at explained
          have standsIn := splits.standsIn
          rw [List.nil_append, String.ofList_toList] at standsIn
          simp only [cut] at failed
          cases outcome : readPackages mode lexemes with
          | ok packages =>
              rw [outcome] at failed
              cases failed
          | error fault' =>
              rw [outcome] at failed
              obtain rfl : fault' = fault := Except.error.inj failed
              obtain ⟨front, lexeme, rest, rfl, blamed, undecided⟩ :=
                readPackages_blamed (standard_of_tokenize cut) outcome
              have stands := standsIn lexeme (List.mem_append_right _ List.mem_cons_self)
              exact .lexeme resolved cut stands blamed undecided

/-- A fault is on a line of the text: the first one that is not blank, the one where the text
cannot be cut any further, or the one of a lexeme that was reached.  A block that is left open is
declared at this lexeme. -/
theorem read_fault_placed {source text : String} {requested : Option NullMode} {fault : Fault}
    (failed : read source text requested = .error fault) :
    (1 ≤ fault.line ∧ fault.line ≤ 1 + lineFeeds text.toList) ∧ FaultAt text requested fault := by
  have placed := faultAt_of_read failed
  exact ⟨placed.line_le, placed⟩

/-- A text that ends inside a class, which is declared over two lines behind a blank one. -/
def openText : String :=
  "package p \x7b\n  class A \x7b\n  \x7d\n\n  public\n  class B \x7b\n    field int x;\n"

theorem read_fault_placed_openText : ∃ fault, read "api.txt" openText none = .error fault ∧
    fault = { line := 5, reason := .unterminatedClass "p.B" } ∧
    (1 ≤ fault.line ∧ fault.line ≤ 1 + lineFeeds openText.toList) ∧
    FaultAt openText none fault := by
  have fails : (match read "api.txt" openText none with
      | .ok _ => none
      | .error fault => some fault) = some { line := 5, reason := .unterminatedClass "p.B" } := by
    decide +kernel
  cases outcome : read "api.txt" openText none with
  | ok api =>
      rw [outcome] at fails
      cases fails
  | error fault =>
      rw [outcome] at fails
      exact ⟨fault, rfl, Option.some.inj fails, read_fault_placed outcome⟩

end Signature

end ApiCompat
