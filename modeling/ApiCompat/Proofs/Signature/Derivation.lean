import ApiCompat.Proofs.Accepts.Texts
import ApiCompat.Proofs.Signature.Modes

/-!
# The tree of a text

Whatever is read from a text is what a syntax tree of its words declares, and
the reader has seen to it that the tree is consistent (`exists_tree_of_read`).
So all the marks about a type agree, but for a mark with another one directly
behind it (`read_marks`).
-/

set_option autoImplicit false

namespace ApiCompat.Signature

open Grammar

variable {source text : String} {requested : Option NullMode} {api : Api}

theorem exists_tree_of_read (whole : read source text requested = .ok api) :
    ∃ blocks : List (Located PackageTree), Derives text blocks ∧
      packagesIn api.nullMode blocks = .ok api.packages ∧
      ∀ block ∈ blocks, block.item.Consistent := by
  unfold read at whole
  split at whole
  · cases whole
  · next mode _ =>
      split at whole
      · cases whole
      · next lexemes tokenized =>
          split at whole
          · cases whole
          · next packages found =>
              obtain rfl := Except.ok.inj whole
              obtain ⟨blocks, consistent, ⟨fault, failed, _⟩ | ⟨spells, declared, _⟩⟩ :=
                readPackages_modes mode mode (standard_of_tokenize tokenized)
              · exact absurd (failed.symm.trans found) not_ok_of_failed
              · exact ⟨blocks, ⟨lexemes, tokenized, spells⟩, declared.symm.trans found, consistent⟩

/-- A type that is read is what the marks about it say, and what the null mode
says if there are none.  Only of two different marks directly behind each
other the first one is overruled by the second. -/
theorem read_marks (whole : read source text requested = .ok api) :
    ∃ blocks, Derives text blocks ∧ packagesIn api.nullMode blocks = .ok api.packages ∧
      ∀ site ∈ fileSites blocks, site.type.IsNamed →
        (∀ mark ∈ site.counted, mark = (site.typeIn api.nullMode).nullness) ∧
        (site.written = [] → (site.typeIn api.nullMode).nullness = api.nullMode.bare) ∧
        ((∀ mark ∈ site.written, mark = (site.typeIn api.nullMode).nullness) ↔
          ¬site.type.Overruled) := by
  obtain ⟨blocks, derives, declared, consistent⟩ := exists_tree_of_read whole
  refine ⟨blocks, derives, declared, fun site member named => ?_⟩
  have agrees := allConsistent_fileSites consistent site member
  refine ⟨agrees.eq_nullness named _, fun bare => ?_, agrees.eq_nullness_iff named _⟩
  rw [Site.nullness_typeIn named, site.written_eq_nil_iff.mp bare]
  rfl

def markedText : String :=
  "package p \x7b\n  class C \x7b\n" ++
    "    method @Nullable public @Nullable Map<K!, V>? f(String?[]! a, @NonNull T... b);\n" ++
    "  \x7d\n\x7d\n"

theorem read_marks_markedText : ∃ api, read "api.txt" markedText (some .nullAware) = .ok api ∧
    ∃ blocks, Derives markedText blocks ∧ packagesIn api.nullMode blocks = .ok api.packages ∧
      ∀ site ∈ fileSites blocks, site.type.IsNamed →
        ∀ mark ∈ site.counted, mark = (site.typeIn api.nullMode).nullness := by
  obtain ⟨api, whole⟩ := exists_of_isOk
    (show (read "api.txt" markedText (some .nullAware)).isOk = true by decide +kernel)
  obtain ⟨blocks, derives, declared, marks⟩ := read_marks whole
  exact ⟨api, whole, blocks, derives, declared, fun site member named =>
    (marks site member named).1⟩

/-- A nullable type that is marked as unknown once more. -/
def overruledType : TypeTree :=
  .named [] { first := "String" } [] (some .question) { mark := some .bang }

/-- The text is read, though the marks of its only type contradict each other. -/
theorem not_marks_agree :
    Derives (fieldText "String?!") (fieldBlocks overruledType) ∧
      (fileSites (fieldBlocks overruledType)).map Site.written = [[.nullable, .unspecified]] ∧
      ((read "api.txt" (fieldText "String?!") none).toOption.map fun api =>
        api.classes.flatMap fun cls => cls.item.fields.map fun item => item.type.nullness) =
          some [.unspecified] := by
  decide +kernel

end ApiCompat.Signature
