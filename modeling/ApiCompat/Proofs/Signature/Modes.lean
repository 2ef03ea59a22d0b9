import ApiCompat.Proofs.Api.Shape
import ApiCompat.Proofs.Grammar.Marks
import ApiCompat.Proofs.Rerun.Blocks

/-!
# Reading a text under both null modes

Without a header a text is read under any null mode.  The mode decides
neither whether it can be read nor where a fault is; it only fills in the
nullness of named types that have no mark (`read_modes`).
-/

set_option autoImplicit false

namespace ApiCompat.Signature

open Grammar

variable {lexemes : List Lexeme} {source text : String}

theorem not_ok_of_failed {α β : Type} {outcome : Except Fault α} {fault : Fault} {value : β} :
    (outcome >>= fun _ => .error fault) ≠ .ok value := by
  cases outcome <;> simp [bind, Except.bind]

theorem exists_of_isOk {α : Type} {outcome : Except Fault α} (some : outcome.isOk = true) :
    ∃ value, outcome = .ok value := by
  cases outcome with
  | error fault => cases some
  | ok value => exact ⟨value, rfl⟩

def underModes (mode mode' : NullMode) (lexemes : List Lexeme) : Rerun :=
  .inPlace { nullMode := mode, endLine := lastLine lexemes }
    { nullMode := mode', endLine := lastLine lexemes } [] fun _ => rfl

section

variable (mode mode' : NullMode)

theorem again_underModes (all lexemes : List Lexeme) :
    (underModes mode mode' all).again lexemes = lexemes := by
  simp [Rerun.again, underModes, Rerun.inPlace]

/-- Under every null mode the same blocks are declared, and the same fault may follow them. -/
theorem readPackages_modes (standard : ∀ lexeme ∈ lexemes, lexeme.Standard) :
    ∃ blocks : List (Located PackageTree), (∀ block ∈ blocks, block.item.Consistent) ∧
      ((∃ fault : Fault,
        readPackages mode lexemes = (packagesIn mode blocks >>= fun _ => .error fault) ∧
        readPackages mode' lexemes = (packagesIn mode' blocks >>= fun _ => .error fault)) ∨
      (Spells (fileWords blocks) lexemes ∧ readPackages mode lexemes = packagesIn mode blocks ∧
        readPackages mode' lexemes = packagesIn mode' blocks)) := by
  let run := underModes mode mode' lexemes
  have settled : run.Settled lexemes := Rerun.settled_of_alone rfl standard
  have again : run.again lexemes = lexemes := again_underModes mode mode' lexemes lexemes
  obtain ⟨blocks, consistent, outcome⟩ :=
    accumulates_packageBlocks settled (Nat.le_refl _) (Nat.le_of_eq (congrArg List.length again))
  have first : blocks.foldlM (blockFirst run) .empty = packagesIn mode blocks :=
    foldlM_blockFirst blocks .empty
  have second : blocks.foldlM (blockAgain run) .empty = packagesIn mode' blocks :=
    foldlM_blockAgain_id rfl blocks .empty
  rw [again] at outcome
  refine ⟨blocks, consistent, ?_⟩
  rcases outcome with ⟨fault, failed, failed'⟩ | ⟨spells, all, left, _, all'⟩
  · have failed := failed .empty
    have failed' := failed' rfl .empty
    rw [first] at failed
    rw [second] at failed'
    exact .inl ⟨fault, readPackages_failed failed, readPackages_failed failed'⟩
  · have all := all .empty
    have all' := all' .empty
    rw [first] at all
    rw [second] at all'
    simp only [run, underModes, Rerun.inPlace, packageBlocks_nil] at all'
    exact .inr ⟨spells, readPackages_all all, readPackages_all all'⟩

/-- Blocks declare things of one shape under every null mode, or have one fault. -/
theorem shape_packagesIn (blocks : List (Located PackageTree)) :
    moveOutcome id (changePackages id ClassDecl.shape) (packagesIn mode blocks) =
      moveOutcome id (changePackages id ClassDecl.shape) (packagesIn mode' blocks) := by
  have moved : ∀ mode, moveOutcome id (changePackages id ClassDecl.shape) (packagesIn mode blocks) =
      ((blocks.map (blockIn mode)).map (Block.changed id ClassDecl.shape)).foldlM declareBlock
        .empty :=
    fun mode => foldlM_declareBlock_changed id keepsNames_shape _ .empty
  have same : (blocks.map (blockIn mode)).map (Block.changed id ClassDecl.shape) =
      (blocks.map (blockIn mode')).map (Block.changed id ClassDecl.shape) := by
    rw [List.map_map, List.map_map]
    exact List.map_congr_left fun block _ => shape_blockIn mode mode' block
  rw [moved, moved, same]

/-- Both modes have the same fault, or what they read has one shape. -/
theorem outcomes_modes (standard : ∀ lexeme ∈ lexemes, lexeme.Standard) :
    (∃ fault, readPackages mode lexemes = .error fault ∧
      readPackages mode' lexemes = .error fault) ∨
    ∃ blocks packages packages', Spells (fileWords blocks) lexemes ∧
      packagesIn mode blocks = .ok packages ∧ packagesIn mode' blocks = .ok packages' ∧
      readPackages mode lexemes = .ok packages ∧ readPackages mode' lexemes = .ok packages' ∧
      changePackages id ClassDecl.shape packages = changePackages id ClassDecl.shape packages' := by
  obtain ⟨blocks, _, outcome⟩ := readPackages_modes mode mode' standard
  have shape := shape_packagesIn mode mode' blocks
  cases first : packagesIn mode blocks with
  | error duplicate =>
      cases second : packagesIn mode' blocks with
      | ok packages' => simp [first, second, moveOutcome] at shape
      | error duplicate' =>
          obtain rfl : duplicate = duplicate' := by
            rw [first, second] at shape
            exact Except.error.inj shape
          rw [first, second] at outcome
          rcases outcome with ⟨_, failed, failed'⟩ | ⟨_, failed, failed'⟩
          · exact .inl ⟨duplicate, failed, failed'⟩
          · exact .inl ⟨duplicate, failed, failed'⟩
  | ok packages =>
      cases second : packagesIn mode' blocks with
      | error duplicate' => simp [first, second, moveOutcome] at shape
      | ok packages' =>
          rw [first, second] at shape outcome
          rcases outcome with ⟨fault, failed, failed'⟩ | ⟨spells, all, all'⟩
          · exact .inl ⟨fault, failed, failed'⟩
          · exact .inr ⟨blocks, packages, packages', spells, first, second, all, all',
              Except.ok.inj shape⟩

end

theorem read_eq_of {mode : NullMode} (source : String)
    (resolved : resolveMode text.toList (some mode) = .ok mode)
    (tokenized : tokenize text = .ok lexemes) : read source text (some mode) =
      readPackages mode lexemes >>= fun packages => .ok { source, nullMode := mode, packages } := by
  simp only [read, resolved, tokenized]
  cases readPackages mode lexemes <;> rfl

/-- A text without a header is read under both null modes or has the same
fault under both.  The packages have one shape, and where a type differs it
is a named one without a mark, which takes its nullness from the mode. -/
theorem read_modes (source text : String) (bare : header? text.toList = none) :
    (∃ fault, ∀ mode, read source text (some mode) = .error fault) ∨
    ∃ lexemes blocks legacy aware,
      tokenize text = .ok lexemes ∧ Spells (fileWords blocks) lexemes ∧
      packagesIn .legacy blocks = .ok legacy ∧ packagesIn .nullAware blocks = .ok aware ∧
      read source text (some .legacy) =
        .ok { source, nullMode := .legacy, packages := legacy } ∧
      read source text (some .nullAware) =
        .ok { source, nullMode := .nullAware, packages := aware } ∧
      changePackages id ClassDecl.shape legacy = changePackages id ClassDecl.shape aware ∧
      (∀ occurrence ∈ fileOccurrences blocks,
        (occurrence.IsNamed ∧ occurrence.marks = [] ∧
          (occurrence.typeIn .legacy).nullness = .unspecified ∧
          (occurrence.typeIn .nullAware).nullness = .nonNull) ∨
        (occurrence.Marked ∧
          (occurrence.typeIn .legacy).nullness = (occurrence.typeIn .nullAware).nullness)) ∧
      (AllMarked (fileOccurrences blocks) → legacy = aware) := by
  have resolved : ∀ mode, resolveMode text.toList (some mode) = .ok mode := fun mode => by
    rw [resolveMode, bare]
    rfl
  cases tokenized : tokenize text with
  | error place =>
      refine .inl ⟨{ line := place.line, reason := .unreadable place.text }, fun mode => ?_⟩
      simp only [read, resolved, tokenized]
  | ok lexemes =>
      have readAs := fun mode => read_eq_of source (resolved mode) tokenized
      rcases outcomes_modes .legacy .nullAware (standard_of_tokenize tokenized) with
        ⟨fault, failed, failed'⟩ |
        ⟨blocks, legacy, aware, spells, first, second, all, all', shape⟩
      · refine .inl ⟨fault, fun mode => ?_⟩
        rw [readAs]
        cases mode with
        | legacy => rw [failed]; rfl
        | nullAware => rw [failed']; rfl
      · refine .inr ⟨lexemes, blocks, legacy, aware, rfl, spells, first, second, ?_, ?_, shape,
          fun occurrence _ => ?_, fun marked => ?_⟩
        · rw [readAs, all]; rfl
        · rw [readAs, all']; rfl
        · by_cases bare : occurrence.IsNamed ∧ occurrence.marks = []
          · obtain ⟨named, unmarked⟩ := bare
            exact .inl ⟨named, unmarked, Occurrence.nullness_unmarked named unmarked .legacy,
              Occurrence.nullness_unmarked named unmarked .nullAware⟩
          · have marked : occurrence.Marked := fun named unmarked => bare ⟨named, unmarked⟩
            exact .inr ⟨marked, Occurrence.nullness_marked marked .legacy .nullAware⟩
        · have same := packagesIn_marked .legacy .nullAware marked
          rw [first, second] at same
          exact Except.ok.inj same

def threeTypesText : String :=
  "// an API\npackage p \x7b\n  class C \x7b\n    field A<?, @Nullable B> x;\n  \x7d\n\x7d\n"

theorem read_modes_threeTypes :
    header? threeTypesText.toList = none ∧
      ∃ legacy aware, read "api.txt" threeTypesText (some .legacy) = .ok legacy ∧
        read "api.txt" threeTypesText (some .nullAware) = .ok aware ∧
        legacy.shape = aware.shape := by
  have bare : header? threeTypesText.toList = none := by decide +kernel
  refine ⟨bare, ?_⟩
  rcases read_modes "api.txt" threeTypesText bare with ⟨fault, failed⟩ |
    ⟨_, _, legacy, aware, _, _, _, _, first, second, shape, _, _⟩
  · have some : (read "api.txt" threeTypesText (some .legacy)).isOk = true := by decide +kernel
    rw [failed] at some
    cases some
  · refine ⟨_, _, first, second, ?_⟩
    simp only [Api.shape, shape]

end ApiCompat.Signature
