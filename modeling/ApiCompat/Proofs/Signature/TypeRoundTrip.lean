import ApiCompat.Proofs.Respaced.Types
import ApiCompat.Proofs.Rerun.Basic
import ApiCompat.Proofs.Signature.TypeGives
import ApiCompat.Proofs.Signature.TypeTakes
import ApiCompat.Proofs.Signature.Written

/-!
# Reading a written type

The text of a type splits into tokens that are read as this type, whatever
stands behind them, as long as it does not continue the type.  Only the tokens
matter: they may stand on other lines and behind other blanks and comments.
-/

set_option autoImplicit false

namespace ApiCompat.Signature

variable {α : Type} {mode : NullMode} {type : TypeRef}

def EndsAnyType (rest : List Lexeme) : Prop :=
  ∀ next ∈ rest.head?, endsTypeKind next.kind = true

theorem EndsAnyType.bare {rest : List Lexeme} (ends : EndsAnyType rest) :
    EndsType (rest.map Lexeme.bare) := by
  cases rest with
  | nil =>
      intro word member
      cases member
  | cons next rest => exact (endsType_cons _ _).mpr (ends next rfl)

theorem notNextWord_bare {word : String} {rest : List Lexeme}
    (other : ∀ next ∈ rest.head?, next.isWord word = false) :
    NotNextWord word (rest.map Lexeme.bare) := by
  cases rest with
  | nil =>
      intro next member
      cases member
  | cons next rest =>
      have different := other next rfl
      simpa [NotNextWord, Lexeme.bare, Lexeme.isWord] using different

theorem NoBound.bare {rest : List Lexeme} (noBound : NoBound rest) :
    EndsWildcard (rest.map Lexeme.bare) :=
  ⟨notNextWord_bare fun next stands => (noBound next stands).1,
    notNextWord_bare fun next stands => (noBound next stands).2⟩

/-- Lexemes that spell the words of a type are read as the type. -/
theorem plainType_spelled (formed : type.Formed AnyIdentifier) {context : Context}
    {taken rest : List Lexeme} (spells : Spells (typeWords context.nullMode type) taken)
    (ends : EndsAnyType rest) (closed : type.endsOpen = true → NoBound rest) :
    plainType context (taken ++ rest) = .ok (type, rest) := by
  have idents : Identifiers AnyIdentifier := fun _ => id
  have takes : Takes context.nullMode True plainType (typeWords context.nullMode type)
      (rest.map Lexeme.bare) (· = type) :=
    takes_plainType formed idents ends.bare fun isOpen => (closed isOpen).bare
  obtain ⟨found, read, same⟩ := takes.run rfl spells (spells_bare rest)
  rw [read, same]

/-- Lexemes with the tokens of what a reader took are read alike. -/
theorem follows_front {reader : Reader α} {context : Context} {front taken rest : List Lexeme}
    {value : α} (sameTokens : taken.map Lexeme.token = front.map Lexeme.token)
    (follows : ∀ run : Respacing, run.Follows Eq reader reader)
    (read : reader context (front ++ rest) = .ok (value, rest)) :
    reader context (taken ++ rest) = .ok (value, rest) := by
  let run : Respacing :=
    { context, context' := context, lexemes := front ++ rest, lexemes' := taken ++ rest,
      sameMode := rfl, sameTokens := by rw [List.map_append, List.map_append, sameTokens] }
  have outcomes : Outcomes (fun out out' => out.1 = out'.1 ∧ run.Beside out.2 out'.2)
      (reader context (front ++ rest)) (reader context (taken ++ rest)) :=
    follows run (front ++ rest) (taken ++ rest) ⟨0, rfl, rfl⟩
  rw [read] at outcomes
  generalize reader context (taken ++ rest) = outcome at outcomes ⊢
  cases outcomes with
  | @read _ out holds =>
      obtain ⟨value', rest'⟩ := out
      obtain ⟨sameValue, place, left, left'⟩ : value = value' ∧ ∃ place,
          rest = (front ++ rest).drop place ∧ rest' = (taken ++ rest).drop place := holds
      -- As many lexemes were taken, and the same ones stand behind them.
      have lengths : taken.length = front.length := by
        simpa using congrArg List.length sameTokens
      have enough : front.length ≤ place := by
        have counted := congrArg List.length left
        rw [List.length_drop, List.length_append] at counted
        omega
      have sameRest : rest' = rest := by
        rw [List.drop_append, List.drop_of_length_le enough] at left
        rw [List.drop_append, List.drop_of_length_le (lengths ▸ enough), lengths] at left'
        rw [left', ← left]
      rw [← sameValue, sameRest]

/-- The tokens of a written type are read as this type, and what follows is left. -/
theorem plainType_written (formed : type.Formed AnyIdentifier) (mode : NullMode) :
    ∃ front, tokenize (writeType mode type) = .ok front ∧
      ∀ (context : Context) (taken rest : List Lexeme), context.nullMode = mode →
        taken.map Lexeme.token = front.map Lexeme.token →
        EndsAnyType rest → (type.endsOpen = true → NoBound rest) →
        plainType context (taken ++ rest) = .ok (type, rest) := by
  have idents : Identifiers AnyIdentifier := fun _ => id
  have whole := (spelled_writeType idents mode formed).scans [] [] breaks_nil loose_nil
    (.blank rfl)
  rw [List.append_nil, List.append_nil] at whole
  obtain ⟨front, tokenized, spells⟩ := whole.tokenizeFrom 0 1
  refine ⟨front, tokenized, ?_⟩
  rintro context taken rest rfl sameTokens ends closed
  have read := plainType_spelled formed spells ends closed
  exact follows_front sameTokens (fun run => Respacing.follows_plainType) read

def nestedType : TypeRef :=
  { name := "java.util.Map"
    args :=
      [{ name := "?"
         bound := .upper
          { name := "java.util.List"
            args := [{ name := "?", bound := .lower { name := "T", nullness := .nullable } }]
            arrayDims := 2
            nullness := .nonNull } },
       { name := "int" }]
    arrayDims := 1
    varargs := true
    nullness := .nullable }

theorem formed_nestedType : nestedType.Formed AnyIdentifier := by
  refine .inr ⟨by decide, rfl, ?_, ?_, trivial⟩
  · refine .inl ⟨rfl, rfl, rfl, rfl, rfl, .inr ⟨by decide, rfl, ?_, trivial⟩⟩
    exact .inl ⟨rfl, rfl, rfl, rfl, rfl, .inr ⟨by decide, rfl, trivial⟩⟩
  · exact .inr ⟨by decide, rfl, trivial⟩

theorem plainType_written_nestedType :
    nestedType.Formed AnyIdentifier ∧
      ∃ front, tokenize
          "java.util.Map<? extends java.util.List<? super T?>[][], int!>[]...?" = .ok front ∧
        plainType ⟨.nullAware, 1⟩ (front ++ [⟨.identifier, "names", " ", 67, 1⟩]) =
          .ok (nestedType, [⟨.identifier, "names", " ", 67, 1⟩]) := by
  have written : writeType .nullAware nestedType =
      "java.util.Map<? extends java.util.List<? super T?>[][], int!>[]...?" := by decide +kernel
  obtain ⟨front, tokenized, reads⟩ := plainType_written formed_nestedType .nullAware
  rw [written] at tokenized
  refine ⟨formed_nestedType, front, tokenized, ?_⟩
  refine reads ⟨.nullAware, 1⟩ front [⟨.identifier, "names", " ", 67, 1⟩] rfl rfl ?_ ?_
  · simp [EndsAnyType, endsTypeKind]
  · intro _
    simp [NoBound, Lexeme.isWord]

end ApiCompat.Signature
