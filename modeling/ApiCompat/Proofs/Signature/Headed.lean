import ApiCompat.Proofs.Signature.Relined
import ApiCompat.Proofs.Signature.RoundTrip

/-!
# A null mode asked for or stated in a header

A header line is a comment to the lexer.  Writing it in front of a text takes
all lexemes one line further down and settles the null mode, which is what
asking for the mode does to a text without a header (`read_headed`).
-/

set_option autoImplicit false

namespace ApiCompat.Signature

variable (mode : NullMode)

def headed (mode : NullMode) (text : String) : String := headerLine mode ++ "\n" ++ text

theorem toList_headed (text : String) :
    (headed mode text).toList = (headerLine mode).toList ++ '\n' :: text.toList := by
  simp [headed]

theorem resolveMode_headed (text : String) :
    resolveMode (headed mode text).toList none = .ok mode := by
  rw [resolveMode, toList_headed, header?_headed]
  simp only [NullMode.ofVersion?_version]

theorem resolveMode_bare {text : List Char} (bare : header? text = none) :
    resolveMode text (some mode) = .ok mode := by
  rw [resolveMode, bare]
  rfl

/-- The header line belongs to the gap before the first lexeme. -/
theorem tokenize_headed (text : String) : ∃ bytes gap, tokenize (headed mode text) =
    outcomeDown bytes 1 (tokenize text) >>= fun lexemes => .ok (widen gap lexemes) := by
  have blank : (splitGap false (headerLine mode).toList).2 = [] := by
    cases mode <;> decide
  have feeds : lineFeeds ((headerLine mode).toList ++ ['\n']) = 1 := by
    cases mode <;> decide
  let front := String.ofList ((headerLine mode).toList ++ ['\n'])
  refine ⟨front.utf8ByteSize, front, ?_⟩
  rw [tokenize, toList_headed, tokenizeFrom_widen blank, feeds, tokenizeFrom_outcomeDown]
  rfl

theorem read_headed_eq (source : String) {text : String} (bare : header? text.toList = none) :
    read source (headed mode text) none =
      moveOutcome (· + 1) (Api.moved (· + 1)) (read source text (some mode)) := by
  obtain ⟨bytes, gap, tokens⟩ := tokenize_headed mode text
  simp only [read, resolveMode_headed, resolveMode_bare mode bare, tokens]
  cases tokenized : tokenize text with
  | error place => rfl
  | ok lexemes =>
      have moved := readPackages_relined mode (relines_down bytes 1)
        (standard_of_tokenize tokenized)
      simp only [outcomeDown, bind, Except.bind, readPackages_widen, moved]
      cases readPackages mode lexemes <;> rfl

/-- Asking for a null mode where no header states one is as good as stating it: what is declared
is the same one line further down, and so is the fault if there is one. -/
theorem read_headed {source text : String} (bare : header? text.toList = none) :
    (∃ api, read source text (some mode) = .ok api ∧
      read source (headerLine mode ++ "\n" ++ text) none = .ok (api.moved fun line => line + 1)) ∨
    ∃ fault, read source text (some mode) = .error fault ∧
      read source (headerLine mode ++ "\n" ++ text) none =
        .error { fault with line := fault.line + 1 } := by
  have both := read_headed_eq mode source bare
  cases asked : read source text (some mode) with
  | ok api =>
      rw [asked] at both
      exact .inl ⟨api, rfl, both⟩
  | error fault =>
      rw [asked] at both
      exact .inr ⟨fault, rfl, both⟩

/-- A text with a comment on top that is no header, which ends inside a class. -/
def truncatedText : String :=
  "\n// Signature format\npackage p \x7b\n  class C \x7b\n    field int x;\n"

theorem read_headed_truncatedText : header? truncatedText.toList = none ∧
    ∃ fault, read "api.txt" truncatedText (some .nullAware) = .error fault ∧
      read "api.txt" ("// Signature format: 3.0" ++ "\n" ++ truncatedText) none =
        .error { fault with line := fault.line + 1 } := by
  have bare : header? truncatedText.toList = none := by decide +kernel
  refine ⟨bare, ?_⟩
  rcases @read_headed .nullAware "api.txt" truncatedText bare with ⟨api, whole, _⟩ | failed
  · have fails : (read "api.txt" truncatedText (some .nullAware)).isOk = false := by
      decide +kernel
    rw [whole] at fails
    cases fails
  · exact failed

end ApiCompat.Signature
