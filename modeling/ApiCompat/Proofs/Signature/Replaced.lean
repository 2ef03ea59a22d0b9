import ApiCompat.Proofs.Respaced.Texts
import ApiCompat.Proofs.Signature.FirstLines
import ApiCompat.Proofs.Signature.Leading
import ApiCompat.Proofs.Signature.Sealed

/-!
# Texts with one declaration written in another way

At the place of a class or of a member other lexemes may stand, if the same
declaration is read from them: everything before and behind is read as it was
(`ClassPlace.replace`, `MemberPlace.replace`).  So a text with these lexemes is
read as the same API but for lines (`read_replaced`).
-/

set_option autoImplicit false

namespace ApiCompat.Signature

open Reader

variable {context : Context} {lexemes rest : List Lexeme}

/-! ## What declarations begin with -/

theorem Leading.leadsOn {α : Type} {reader : Reader α} (leading : Leading reader)
    (advances : Advances reader) {value : α} (read : reader context lexemes = .ok (value, rest)) :
    LeadsOn lexemes := by
  intro next isNext
  cases lexemes with
  | nil => cases isNext
  | cons first later =>
      obtain rfl := Option.some.inj isNext
      exact leading.leads_start advances read

theorem classDecl_leadsOn {package : String} {cls : Located ClassDecl}
    (read : classDecl package context lexemes = .ok (cls, rest)) : LeadsOn lexemes := by
  obtain ⟨head, body, members, close, classRead⟩ := classDecl_eq_ok_iff.mp read
  obtain ⟨line, found, behind, _, readFront, readBody⟩ := classHead_eq_ok_iff.mp classRead.readHead
  obtain ⟨front, isFront⟩ := preamble_eq_ok_iff.mp readFront
  rw [isFront.whole]
  exact leadsOn_front
    ((leading_classHeadBody line found).leadsOn (advances_classHeadBody line found) readBody) front

/-! ## Other lexemes at a place -/

/-- The blocks of the whole text with another class at the place. -/
def ClassPlace.blocksWith {package : String} {cls : Located ClassDecl}
    (place : ClassPlace context lexemes package cls) (cls' : Located ClassDecl) : List Block :=
  place.blocks ++ ⟨place.line, package, place.earlier ++ cls' :: place.later⟩ :: place.laterBlocks

/-- A class may be read from other lexemes. -/
theorem ClassPlace.replace {package : String} {cls : Located ClassDecl}
    (place : ClassPlace context lexemes package cls) :
    ∃ before, before ≠ [] ∧ lexemes = before ++ place.start ∧ ∀ start' cls',
      classDecl package context start' = .ok (cls', place.behind) →
      InTurn (BlockRead context) [] (before ++ start') (place.blocksWith cls') := by
  obtain ⟨front, inFile, againFile⟩ := place.inFile.again (sealed_blockRead context)
  obtain ⟨head, last, opening, _, _, againHead⟩ := seals_packageHead context _ _ _ place.readPackage
  obtain ⟨earlier, inBlock, againEarlier⟩ := place.inBlock.again (seals_classDecl package context)
  refine ⟨front ++ (head ++ last :: earlier), by simp, ?_, fun start' cls' read => ?_⟩
  · refine inFile.trans ?_
    rw [opening, inBlock]
    simp
  · obtain ⟨first, piece, rfl⟩ := advances_classDecl context start' cls' place.behind read
    have begins : first.kind ≠ .rightBrace := (classDecl_leadsOn read first rfl).kind_ne (by decide)
    have classes : InTurn (ReadBy context (classDecl package)) (place.close :: place.blockEnd)
        (earlier ++ (first :: piece ++ place.behind)) (place.earlier ++ cls' :: place.later) :=
      (againEarlier _).append (.step begins read place.inBlockLater)
    let block : Block := ⟨place.line, package, place.earlier ++ cls' :: place.later⟩
    have blockRead : BlockRead context
        (head ++ last :: (earlier ++ (first :: piece ++ place.behind))) block place.blockEnd :=
      ⟨_, place.close, againHead _, place.isClose, classes⟩
    obtain ⟨keyword, more, shape, isWord⟩ := blockRead.first
    have whole : front ++ (head ++ last :: earlier) ++ (first :: piece ++ place.behind) =
        front ++ (keyword :: more ++ place.blockEnd) := by
      rw [← shape]
      simp
    rw [whole]
    rw [shape] at blockRead
    exact (againFile _).append (.step isWord blockRead place.inFileLater)

/-- A member may be read from other lexemes. -/
theorem MemberPlace.replace {package : String} {cls : Located ClassDecl} {classEnd : List Lexeme}
    {found : Located Member} (place : MemberPlace package context lexemes cls classEnd found) :
    ∃ before, lexemes = before ++ place.start ∧ ∀ start',
      member context start' = .ok (found, place.behind) →
      classDecl package context (before ++ start') = .ok (cls, classEnd) := by
  obtain ⟨head, last, opening, _, _, againHead⟩ := seals_classHead context _ _ _ place.readHead
  obtain ⟨earlier, inClass, againEarlier⟩ := place.inClass.again (seals_member context)
  refine ⟨head ++ last :: earlier, ?_, fun start' read => ?_⟩
  · refine opening.trans ?_
    rw [inClass]
    simp
  · obtain ⟨first, piece, rfl⟩ := advances_member context start' found place.behind read
    have begins : first.kind ≠ .rightBrace := by
      obtain ⟨keyword, later, _, _, shape, isWord, _⟩ := member_eq_ok_iff.mp read
      obtain ⟨rfl, _⟩ := List.cons.inj shape
      rw [isWord]
      exact TokenKind.noConfusion
    have members : InTurn (ReadBy context member) (place.close :: classEnd)
        (earlier ++ (first :: piece ++ place.behind)) (place.earlier ++ found :: place.later) :=
      (againEarlier _).append (.step begins read place.inClassLater)
    have whole : head ++ last :: earlier ++ (first :: piece ++ place.behind) =
        head ++ last :: (earlier ++ (first :: piece ++ place.behind)) := by simp
    rw [whole]
    exact classDecl_eq_ok_iff.mpr
      ⟨place.head, _, _, place.close, againHead _, place.isClose, members, place.stored⟩

/-! ## The API but for lines -/

abbrev unplacedPackages :
    OrderedMap String (Located Package) → OrderedMap String (Located Package) :=
  changePackages (fun _ => 0) ClassDecl.unplaced

theorem keepsNames_unplaced : KeepsNames ClassDecl.unplaced := ⟨fun _ => rfl, fun _ => rfl⟩

/-- Blocks that differ in lines declare the same but for lines. -/
theorem foldlM_declareBlock_unplaced {blocks blocks' : List Block}
    (same : blocks.map (Block.changed (fun _ => 0) ClassDecl.unplaced) =
      blocks'.map (Block.changed (fun _ => 0) ClassDecl.unplaced))
    {packages : OrderedMap String (Located Package)}
    (declared : blocks.foldlM declareBlock .empty = .ok packages) :
    ∃ packages', blocks'.foldlM declareBlock .empty = .ok packages' ∧
      unplacedPackages packages = unplacedPackages packages' := by
  have first := foldlM_declareBlock_changed (fun _ => 0) keepsNames_unplaced blocks .empty
  have second := foldlM_declareBlock_changed (fun _ => 0) keepsNames_unplaced blocks' .empty
  rw [same, ← second, declared] at first
  cases declared' : blocks'.foldlM declareBlock .empty with
  | error fault =>
      rw [declared'] at first
      cases first
  | ok packages' =>
      rw [declared'] at first
      exact ⟨packages', rfl, Except.ok.inj first⟩

theorem gaps_of_spells {lexemes' : List Lexeme}
    (spells : Spells (lexemes.map Lexeme.word) lexemes') :
    lexemes.map Lexeme.gap = lexemes'.map Lexeme.gap := by
  induction lexemes generalizing lexemes' with
  | nil =>
      cases spells
      rfl
  | cons lexeme lexemes ih =>
      cases spells with
      | cons same later => rw [List.map_cons, List.map_cons, ih later, same.2.2 lexeme.gap rfl]

/-- The same lexemes on other lines are read as the same packages but for lines. -/
theorem readPackages_respelled {mode : NullMode} {lexemes' : List Lexeme}
    (spells : Spells (lexemes.map Lexeme.word) lexemes')
    {packages : OrderedMap String (Located Package)}
    (read : readPackages mode lexemes = .ok packages) :
    ∃ packages', readPackages mode lexemes' = .ok packages' ∧
      unplacedPackages packages = unplacedPackages packages' := by
  have sameTokens : lexemes.map Lexeme.token = lexemes'.map Lexeme.token := by
    rw [tokens_of_spells spells, List.map_map]
    rfl
  have sameGaps : ∀ span : Span, span.gaps lexemes = span.gaps lexemes' := by
    intro span
    simp only [Span.gaps, Span.of, List.map_tail, List.map_take, List.map_drop,
      gaps_of_spells spells]
  have sameLength : lexemes.length = lexemes'.length := by
    simpa using congrArg List.length sameTokens
  have outcomes := (Respacing.ofTokens mode sameTokens).follows_blocks
  simp only [readPackages, ← sameLength] at read ⊢
  unfold Respacing.ofTokens at outcomes
  generalize packageBlocks lexemes.length .empty _ lexemes = outcome at outcomes read
  generalize packageBlocks lexemes.length .empty _ lexemes' = outcome' at outcomes ⊢
  cases outcomes with
  | failed same => cases read
  | @read out out' alike =>
      obtain ⟨found, left⟩ := out
      obtain ⟨found', left'⟩ := out'
      obtain rfl := Except.ok.inj read
      obtain ⟨_, _, _, unplaced⟩ := (alike.1.api "" mode).respaced.verbatims
      exact ⟨found', rfl, congrArg Api.packages (unplaced fun span _ => sameGaps span)⟩

/-! ## Texts -/

theorem isWord_of_readPackages {mode : NullMode} {first : Lexeme}
    {packages : OrderedMap String (Located Package)}
    (read : readPackages mode (first :: rest) = .ok packages) : first.isWord "package" = true := by
  obtain ⟨blocks, inTurn, _⟩ := readPackages_eq_ok_iff.mp read
  generalize shape : first :: rest = lexemes at inTurn
  cases inTurn with
  | done => cases shape
  | step begins blockRead _ =>
      obtain ⟨body, close, readHead, _⟩ := blockRead.parts
      rw [← shape, packageHead_cons] at readHead
      split at readHead
      · assumption
      · cases readHead

variable {source text : String} {requested : Option NullMode} {api : Api}

/-- The header is not touched if the first lexemes stay. -/
theorem LexedAs.resolves (lexed : LexedAs api source text requested lexemes)
    {before start start' lexemes' : List Lexeme} (filled : before ≠ [])
    (whole : lexemes = before ++ start) {text' : String} (tokenized : tokenize text' = .ok lexemes')
    (spells : Spells ((before ++ start').map Lexeme.word) lexemes') :
    resolveMode text'.toList requested = .ok api.nullMode := by
  obtain ⟨first, before, rfl⟩ := List.exists_cons_of_ne_nil filled
  subst whole
  cases spells with
  | cons same later =>
      exact resolveMode_gap lexed.tokenized tokenized (isWord_of_readPackages lexed.declared) same
        lexed.resolved

/-- A text with other lexemes at the place of a class, from which the class is read but for its
line, is read as the same API but for lines. -/
theorem read_replaced (lexed : LexedAs api source text requested lexemes) {package : String}
    {cls : Located ClassDecl}
    (place : ClassPlace (contextOf api.nullMode lexemes) lexemes package cls)
    (declared : place.allBlocks.foldlM declareBlock .empty = .ok api.packages) :
    ∃ before, lexemes = before ++ place.start ∧ ∀ start' cls',
      classDecl package (contextOf api.nullMode lexemes) start' = .ok (cls', place.behind) →
      cls'.item = cls.item → ∀ source' text' lexemes', tokenize text' = .ok lexemes' →
        Spells ((before ++ start').map Lexeme.word) lexemes' →
        ∃ api', read source' text' requested = .ok api' ∧ api.unplaced = api'.unplaced := by
  obtain ⟨before, filled, whole, again⟩ := place.replace
  refine ⟨before, whole, fun start' cls' read' same source' text' lexemes' tokenized spells => ?_⟩
  have resolved := lexed.resolves filled whole tokenized spells
  have sameContext : contextOf api.nullMode lexemes =
      { nullMode := api.nullMode, endLine := lastLine (before ++ start') } := by
    have filled : place.behind ≠ [] := by
      intro none
      have suffix := none ▸ place.inBlockLater.suffix
      exact absurd (List.suffix_nil.mp suffix) (List.cons_ne_nil _ _)
    obtain ⟨_, _, shape⟩ := advances_classDecl _ _ _ _ place.read
    obtain ⟨_, _, rfl⟩ := advances_classDecl _ _ _ _ read'
    refine congrArg (Context.mk api.nullMode) ?_
    refine (congrArg lastLine (whole.trans (congrArg (before ++ ·) shape))).trans ?_
    rw [← List.append_assoc, ← List.append_assoc, lastLine_append _ filled,
      lastLine_append _ filled]
  have blocks : place.allBlocks.map (Block.changed (fun _ => 0) ClassDecl.unplaced) =
      (place.blocksWith cls').map (Block.changed (fun _ => 0) ClassDecl.unplaced) := by
    have moved : cls'.move (fun _ => 0) ClassDecl.unplaced =
        cls.move (fun _ => 0) ClassDecl.unplaced := by
      rw [Located.move, Located.move, same]
    simp only [ClassPlace.allBlocks, ClassPlace.blocksWith, Block.changed, List.map_append,
      List.map_cons, moved]
  obtain ⟨packages, declared', unplaced⟩ := foldlM_declareBlock_unplaced blocks declared
  have inTurn : InTurn (BlockRead _) [] (before ++ start') _ := again start' cls' read'
  generalize place.blocksWith cls' = blocks' at inTurn declared'
  rw [sameContext] at inTurn
  have readAll : readPackages api.nullMode (before ++ start') = .ok packages :=
    readPackages_eq_ok_iff.mpr ⟨blocks', inTurn, declared'⟩
  obtain ⟨packages', readText, unplaced'⟩ := readPackages_respelled spells readAll
  let api' : Api := { source := source', nullMode := api.nullMode, packages := packages' }
  refine ⟨api', read_eq_ok_iff.mpr ⟨lexemes', resolved, tokenized, readText, rfl⟩, ?_⟩
  exact congrArg (Api.mk "" api.nullMode) (unplaced.trans unplaced')

end ApiCompat.Signature
