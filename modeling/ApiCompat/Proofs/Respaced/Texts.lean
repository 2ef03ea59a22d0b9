import ApiCompat.Proofs.Respaced.Classes
import ApiCompat.Signature.Read

/-!
# Texts of the same tokens

Two texts of the same tokens under the same null mode are refused for the same
reason, or they give the same API but for lines and for the blanks and comments
inside verbatim texts (`read_respaced`).  Where those agree, only lines differ.
-/

set_option autoImplicit false

namespace ApiCompat

/-- Lexemes with the same tokens and the same gaps between them have the same source text. -/
theorem Span.source_eq {lexemes lexemes' : List Lexeme} {span : Span}
    (sameTokens : lexemes.map Lexeme.token = lexemes'.map Lexeme.token)
    (sameGaps : span.gaps lexemes = span.gaps lexemes') :
    span.source lexemes = span.source lexemes' := by
  have tokens : (span.of lexemes).map Lexeme.token = (span.of lexemes').map Lexeme.token := by
    simp only [Span.of, List.map_take, List.map_drop, sameTokens]
  have grown : ∀ (rest rest' : List Lexeme) (front : String),
      rest.map Lexeme.token = rest'.map Lexeme.token → rest.map Lexeme.gap = rest'.map Lexeme.gap →
      rest.foldl (fun sofar next => sofar ++ next.gap ++ next.text) front =
        rest'.foldl (fun sofar next => sofar ++ next.gap ++ next.text) front := by
    intro rest
    induction rest with
    | nil =>
        intro rest' front tokens _
        obtain rfl := List.map_eq_nil_iff.mp tokens.symm
        rfl
    | cons next later ih =>
        intro rest' front tokens gaps
        obtain ⟨next', later', rfl, token, tokens⟩ := List.map_eq_cons_iff.mp tokens.symm
        obtain ⟨gap, gaps⟩ := List.cons.inj gaps
        have text : next'.text = next.text := congrArg Prod.snd token
        rw [List.foldl_cons, List.foldl_cons, gap, text]
        exact ih later' _ tokens.symm gaps
  unfold Span.gaps at sameGaps
  unfold Span.source
  generalize span.of lexemes = run at tokens sameGaps
  generalize span.of lexemes' = run' at tokens sameGaps
  cases run with
  | nil =>
      obtain rfl := List.map_eq_nil_iff.mp tokens.symm
      rfl
  | cons first rest =>
      obtain ⟨first', rest', rfl, token, tokens⟩ := List.map_eq_cons_iff.mp tokens.symm
      have text : first'.text = first.text := congrArg Prod.snd token
      rw [Lexeme.sourceText, Lexeme.sourceText, text]
      exact grown rest rest' first.text tokens.symm sameGaps

namespace Signature

/-- The APIs differ at most in their lines and, inside verbatim texts, in what stands between the
tokens: each verbatim text is written where the same tokens stand. -/
structure Respaced (lexemes lexemes' : List Lexeme) (api api' : Api) : Prop where
  outline : api.outline = api'.outline
  verbatims : ∃ spans : List Span, api.verbatims = spans.map (Span.source lexemes) ∧
    api'.verbatims = spans.map (Span.source lexemes') ∧
    ((∀ span ∈ spans, span.gaps lexemes = span.gaps lexemes') → api.unplaced = api'.unplaced)

namespace Respacing

/-- Both texts read under one null mode. -/
def ofTokens (mode : NullMode) {lexemes lexemes' : List Lexeme}
    (sameTokens : lexemes.map Lexeme.token = lexemes'.map Lexeme.token) : Respacing where
  context := { nullMode := mode, endLine := lastLine lexemes }
  context' := { nullMode := mode, endLine := lastLine lexemes' }
  lexemes := lexemes
  lexemes' := lexemes'
  sameMode := rfl
  sameTokens := sameTokens

variable {run : Respacing}

/-- All the blocks of both texts. -/
theorem follows_blocks (run : Respacing) :
    Outcomes (fun out out' => run.PackagesAlike out.1 out'.1 ∧ run.Beside out.2 out'.2)
      (packageBlocks run.lexemes.length .empty run.context run.lexemes)
      (packageBlocks run.lexemes.length .empty run.context' run.lexemes') :=
  follows_packageBlocks _ OrderedMap.pointwise_empty _ _ ⟨0, rfl, rfl⟩

theorem spans_of_quoted {texts texts' : List String}
    (quoted : List.Forall₂ run.Quoted texts texts') :
    ∃ spans : List Span, texts = spans.map (Span.source run.lexemes) ∧
      texts' = spans.map (Span.source run.lexemes') := by
  induction quoted with
  | nil => exact ⟨[], rfl, rfl⟩
  | cons first _ ih =>
      obtain ⟨span, rfl, rfl⟩ := first
      obtain ⟨spans, rfl, rfl⟩ := ih
      exact ⟨span :: spans, rfl, rfl⟩

theorem PackagesAlike.api {packages packages' : OrderedMap String (Located Package)}
    (alike : run.PackagesAlike packages packages') (source : String) (nullMode : NullMode) :
    run.Alike Api.outline Api.verbatims { source, nullMode, packages }
      { source, nullMode, packages := packages' } := by
  have stored : run.StoredAlike Package.outline Package.verbatims packages packages' :=
    List.Forall₂.imp (fun _ _ entries => ⟨entries.1, entries.2.alike⟩) alike
  have whole := Alike.stored stored
  exact ⟨congrArg (Api.mk source nullMode) whole.same, whole.quoted⟩

theorem Alike.respaced {api api' : Api} (alike : run.Alike Api.outline Api.verbatims api api') :
    Respaced run.lexemes run.lexemes' api api' where
  outline := alike.same
  verbatims := by
    obtain ⟨spans, texts, texts'⟩ := spans_of_quoted alike.quoted
    refine ⟨spans, texts, texts', fun sameGaps => ?_⟩
    have sameTexts : api.verbatims = api'.verbatims := by
      rw [texts, texts']
      exact List.map_congr_left fun span member =>
        Span.source_eq run.sameTokens (sameGaps span member)
    exact Api.unplaced_of_outline alike.same sameTexts

end Respacing

/-- A reading sees the tokens of a text and its null mode, and nothing else of it. -/
theorem read_respaced (source : String) {text text' : String}
    {requested requested' : Option NullMode} {mode : NullMode} {lexemes lexemes' : List Lexeme}
    (resolved : resolveMode text.toList requested = .ok mode)
    (resolved' : resolveMode text'.toList requested' = .ok mode)
    (tokenized : tokenize text = .ok lexemes) (tokenized' : tokenize text' = .ok lexemes')
    (sameTokens : lexemes.map Lexeme.token = lexemes'.map Lexeme.token) :
    Outcomes (Respaced lexemes lexemes') (read source text requested)
      (read source text' requested') := by
  have sameLength : lexemes.length = lexemes'.length := by
    simpa using congrArg List.length sameTokens
  have outcomes := (Respacing.ofTokens mode sameTokens).follows_blocks
  simp only [read, resolved, resolved', tokenized, tokenized', readPackages, ← sameLength]
  unfold Respacing.ofTokens at outcomes
  generalize packageBlocks lexemes.length .empty _ lexemes = outcome at outcomes ⊢
  generalize packageBlocks lexemes.length .empty _ lexemes' = outcome' at outcomes ⊢
  cases outcomes with
  | failed same => exact .failed same
  | read alike => exact .read (alike.1.api source mode).respaced

theorem exists_of_read {β : Type} {f : Api → β} {value : β} {source text : String}
    {requested : Option NullMode}
    (found : (read source text requested).toOption.map f = some value) :
    ∃ lexemes api, tokenize text = .ok lexemes ∧ read source text requested = .ok api ∧
      f api = value := by
  cases outcome : read source text requested with
  | error fault => simp [outcome, Except.toOption] at found
  | ok api =>
      rw [outcome] at found
      cases tokenized : tokenize text with
      | ok lexemes => exact ⟨lexemes, api, rfl, rfl, Option.some.inj found⟩
      | error place =>
          simp only [read, tokenized] at outcome
          split at outcome <;> cases outcome

def compactText : String := "package p \x7b class C \x7b field @A(1) int x = 2; \x7d \x7d"

def spacedText : String :=
  "// p\npackage p \x7b\n class C \x7b\n field @A( // one\n 1) int x = 2;\n\x7d \x7d"

theorem read_respaced_spacedText :
    resolveMode compactText.toList none = .ok .legacy ∧
    resolveMode spacedText.toList none = .ok .legacy ∧
    ∃ lexemes lexemes', tokenize compactText = .ok lexemes ∧ tokenize spacedText = .ok lexemes' ∧
      lexemes.map Lexeme.token = lexemes'.map Lexeme.token ∧
      ∃ api api', read "api.txt" compactText none = .ok api ∧
        read "api.txt" spacedText none = .ok api' ∧ Respaced lexemes lexemes' api api' ∧
        api.verbatims = ["@A(1)", "2"] ∧
        api'.verbatims = ["@A( // one\n 1)", "2"] := by
  have resolved : resolveMode compactText.toList none = .ok .legacy := by decide +kernel
  have resolved' : resolveMode spacedText.toList none = .ok .legacy := by decide +kernel
  have tokens : (tokenize compactText).toOption.map (List.map Lexeme.token) =
      (tokenize spacedText).toOption.map (List.map Lexeme.token) := by decide +kernel
  have texts : (read "api.txt" compactText none).toOption.map Api.verbatims =
      some ["@A(1)", "2"] := by decide +kernel
  have texts' : (read "api.txt" spacedText none).toOption.map Api.verbatims =
      some ["@A( // one\n 1)", "2"] := by decide +kernel
  obtain ⟨lexemes, api, tokenized, found, verbatims⟩ := exists_of_read texts
  obtain ⟨lexemes', api', tokenized', found', verbatims'⟩ := exists_of_read texts'
  rw [tokenized, tokenized'] at tokens
  have sameTokens := Option.some.inj tokens
  have outcomes := read_respaced "api.txt" resolved resolved' tokenized tokenized' sameTokens
  rw [found, found'] at outcomes
  cases outcomes with
  | read respaced =>
      exact ⟨resolved, resolved', lexemes, lexemes', tokenized, tokenized', sameTokens, api, api',
        found, found', respaced, verbatims, verbatims'⟩

end Signature

end ApiCompat
