import ApiCompat.Proofs.Faults.Readers
import ApiCompat.Proofs.Signature.Relined

/-!
# Blocks that are left open

A block is complained about as a whole when the text ends inside it.  All that
stands in it is complete then: the members of a class that is left open, the
classes of a package that is, and the blocks before it (`LeftOpen`).  Any other
fault is one of a reader inside a block, or of a second declaration.
-/

set_option autoImplicit false

namespace ApiCompat

namespace Grammar

def ClassTree.openWords (cls : ClassTree) : List Word := cls.words.dropLast

theorem ClassTree.openWords_eq (cls : ClassTree) : cls.openWords =
    cls.headWords ++ [.leftBrace] ++ cls.members.flatMap fun found => found.item.words := by
  have whole : cls.words = cls.headWords ++ [.leftBrace] ++
      (cls.members.flatMap fun found => found.item.words) ++ [.rightBrace] := by
    simp [words]
  rw [openWords, whole, List.dropLast_concat]

def PackageTree.openWords (package : PackageTree) : List Word := package.words.dropLast

theorem PackageTree.openWords_eq (package : PackageTree) : package.openWords =
    Signature.openingWords package.name ++
      package.classes.flatMap fun found => found.item.words := by
  have whole : package.words = Signature.openingWords package.name ++
      (package.classes.flatMap fun found => found.item.words) ++ [.rightBrace] := by
    simp [words, Signature.openingWords]
  rw [openWords, whole, List.dropLast_concat]

end Grammar

namespace Signature

open Reader Grammar

/-- The reason is a block that is still open at the end of the text: its declaration starts with
the lexeme, behind `front`, and all that stands before and in it is complete. -/
inductive LeftOpen : List Lexeme → Lexeme → List Lexeme → Reason → Prop
  | package {front rest : List Lexeme} {lexeme : Lexeme} (blocks : List (Located PackageTree))
      (package : PackageTree) (before : Spells (fileWords blocks) front)
      (opened : Spells package.openWords (lexeme :: rest)) :
      LeftOpen front lexeme rest (.unterminatedPackage package.name.text)
  | cls {front rest : List Lexeme} {lexeme : Lexeme} (blocks : List (Located PackageTree))
      (package : PackageTree) (cls : ClassTree)
      (before : Spells (fileWords blocks ++ package.openWords) front)
      (opened : Spells cls.openWords (lexeme :: rest)) :
      LeftOpen front lexeme rest (.unterminatedClass (qualify package.name.text cls.name.text))

variable {context : Context} {lexemes : List Lexeme} {fault : Fault}

/-- What a reader took that succeeded, by what two runs of it have in common. -/
theorem Repeats.of_ok {α : Type} {run : Rerun} {reader reader' : Reader α}
    {post : List Word → α → α → Prop} (repeats : Repeats run lexemes reader reader' post)
    (settled : run.Settled lexemes) {value : α} {rest : List Lexeme}
    (read : reader run.context lexemes = .ok (value, rest)) :
    ∃ value' words taken, lexemes = taken ++ rest ∧ Spells words taken ∧
      post words value value' := by
  rcases repeats settled with ⟨fault, failed, _⟩ |
    ⟨found, value', words, taken, behind, whole, spells, holds, read', _⟩
  · rw [read] at failed
    cases failed
  · rw [read] at read'
    obtain ⟨rfl, rfl⟩ := Prod.mk.inj (Except.ok.inj read')
    exact ⟨value', words, taken, whole, spells, holds⟩

/-- The same run once more. -/
def onceMore (context : Context) : Rerun := .inPlace context context [] fun _ => rfl

theorem settled_onceMore (context : Context) (standard : ∀ lexeme ∈ lexemes, lexeme.Standard) :
    (onceMore context).Settled lexemes :=
  Rerun.settled_of_alone rfl standard

/-! ## Blocks of items -/

section Block

variable {κ α τ : Type} [DecidableEq κ] {key : α → κ} {item : Reader (Located α)}
  {words : τ → List Word} {line : Nat} {unterminated : Reason} {duplicate : Located α → Reason}
  {body : Nat → OrderedMap κ (Located α) → Reader (OrderedMap κ (Located α))}

/-- A block that fails was left open behind complete items, or one behind them fails or is
declared a second time. -/
theorem block_error (loop : BlockLoop key item line unterminated duplicate body)
    (tells : ∀ lexemes found rest, (∀ lexeme ∈ lexemes, lexeme.Standard) →
      item context lexemes = .ok (found, rest) →
      ∃ tree taken, lexemes = taken ++ rest ∧ Spells (words tree) taken ∧ taken ≠ [])
    {rounds : Nat} {map : OrderedMap κ (Located α)} (enough : lexemes.length ≤ rounds)
    (standard : ∀ lexeme ∈ lexemes, lexeme.Standard)
    (failed : body rounds map context lexemes = .error fault) :
    (fault = { line, reason := unterminated } ∧
      ∃ trees : List τ, Spells (trees.flatMap words) lexemes) ∨
    (∃ (trees : List τ) (taken : List Lexeme) (next : Lexeme) (later : List Lexeme),
      lexemes = taken ++ next :: later ∧ Spells (trees.flatMap words) taken ∧
        item context (next :: later) = .error fault) ∨
    ∃ found, fault = { line := found.line, reason := duplicate found } := by
  induction rounds generalizing lexemes map with
  | zero =>
      obtain rfl : lexemes = [] := List.length_eq_zero_iff.mp (Nat.le_zero.mp enough)
      rw [loop.atEnd] at failed
      exact .inl ⟨(Except.error.inj failed).symm, [], .nil⟩
  | succ rounds ih =>
      cases lexemes with
      | nil =>
          rw [loop.atEnd] at failed
          exact .inl ⟨(Except.error.inj failed).symm, [], .nil⟩
      | cons next later =>
          by_cases closes : next.kind = .rightBrace
          · rw [loop.close closes] at failed
            cases failed
          · rw [loop.goOn closes, blockItem] at failed
            cases read : item context (next :: later) with
            | error earlier =>
                rw [bind_error read] at failed
                obtain rfl := Except.error.inj failed
                exact .inr (.inl ⟨[], [], next, later, rfl, .nil, read⟩)
            | ok pair =>
                obtain ⟨found, rest⟩ := pair
                obtain ⟨tree, taken, whole, spells, filled⟩ := tells _ found rest standard read
                rw [bind_ok read] at failed
                split at failed
                · exact .inr (.inr ⟨found, (Except.error.inj failed).symm⟩)
                · -- an item takes a lexeme, so the rounds last as long as the lexemes
                  have positive := List.length_pos_iff.mpr filled
                  rw [whole, List.length_append] at enough
                  rw [whole] at standard
                  have behind := (List.forall_mem_append.mp standard).2
                  rcases ih (by omega) behind failed with
                    ⟨atEnd, trees, spells'⟩ | ⟨trees, taken', next', later', rfl, spells', inside⟩ |
                    twice
                  · refine .inl ⟨atEnd, tree :: trees, ?_⟩
                    rw [whole, List.flatMap_cons]
                    exact spells.append spells'
                  · refine .inr (.inl ⟨tree :: trees, taken ++ taken', next', later', ?_, ?_,
                      inside⟩)
                    · rw [whole, List.append_assoc]
                    · rw [List.flatMap_cons]
                      exact spells.append spells'
                  · exact .inr (.inr twice)

end Block

/-- A reader that tells of trees, all of which have words, took the words of one. -/
theorem tree_of_repeats {α τ : Type} {reader : Reader α} {sound : τ → Prop}
    {words : τ → List Word} {mean mean' : τ → α}
    (repeats : Repeats (onceMore context) lexemes reader reader (ToldBy sound words mean mean'))
    (filled : ∀ tree, 0 < (words tree).length) (standard : ∀ lexeme ∈ lexemes, lexeme.Standard)
    {found : α} {rest : List Lexeme} (read : reader context lexemes = .ok (found, rest)) :
    ∃ tree taken, lexemes = taken ++ rest ∧ Spells (words tree) taken ∧ taken ≠ [] := by
  obtain ⟨_, _, taken, whole, spells, tree, _, rfl, _, _⟩ :=
    repeats.of_ok (settled_onceMore context standard) read
  refine ⟨tree, taken, whole, spells, ?_⟩
  rintro rfl
  have positive := filled tree
  rw [spells.length_eq] at positive
  exact Nat.lt_irrefl 0 positive

/-! ## Classes -/

theorem classBody_error {line rounds : Nat} {owner : String}
    {members : OrderedMap MemberKey (Located Member)} (enough : lexemes.length ≤ rounds)
    (standard : ∀ lexeme ∈ lexemes, lexeme.Standard)
    (failed : classBody line owner rounds members context lexemes = .error fault) :
    (fault = { line, reason := .unterminatedClass owner } ∧
      ∃ trees : List (Located MemberTree),
        Spells (trees.flatMap fun found => found.item.words) lexemes) ∨
    Blames context lexemes fault := by
  rcases block_error (blockLoop_classBody line owner)
    (fun _ _ _ standard read => tree_of_repeats repeats_member
      (fun tree => length_memberWords_pos tree.item) standard read) enough standard failed with
    atEnd | ⟨trees, taken, next, later, rfl, _, inside⟩ | ⟨found, rfl⟩
  · exact .inl atEnd
  · exact .inr (((careful_member _).blames context fault inside).mono (List.suffix_append _ _))
  · exact .inr trivial

theorem careful_classHead : Careful classHead := by
  refine careful_currentLine.bind fun line => careful_preamble.bind fun front => ?_
  refine careful_classKind.bind fun kind => careful_qualifiedName.bind fun name => ?_
  refine careful_typeParams.bind fun typeParams => ?_
  exact (careful_supertypeClauses kind).bind fun _ => careful_expect.bind fun _ => careful_pure

theorem classHead_line {next : Lexeme} {later rest : List Lexeme} {head : ClassHead}
    (read : classHead context (next :: later) = .ok (head, rest)) : head.line = next.line := by
  rw [classHead, bind_ok (currentLine_apply context next later)] at read
  obtain ⟨front, _, _, read⟩ := bind_eq_ok read
  obtain ⟨kind, _, _, read⟩ := bind_eq_ok read
  obtain ⟨name, _, _, read⟩ := bind_eq_ok read
  obtain ⟨typeParams, _, _, read⟩ := bind_eq_ok read
  obtain ⟨supertypes, _, _, read⟩ := bind_eq_ok read
  obtain ⟨brace, _, _, read⟩ := bind_eq_ok read
  obtain ⟨rfl, _⟩ := pure_eq_ok read
  rfl

/-- A class fails where it is left open, or inside. -/
theorem classDecl_error {package : String} {next : Lexeme} {later : List Lexeme}
    (standard : ∀ lexeme ∈ next :: later, lexeme.Standard)
    (failed : classDecl package context (next :: later) = .error fault) :
    (∃ cls : ClassTree, Spells cls.openWords (next :: later) ∧
      fault = { line := next.line, reason := .unterminatedClass (qualify package cls.name.text) }) ∨
    Blames context (next :: later) fault := by
  rw [classDecl_eq] at failed
  cases read : classHead context (next :: later) with
  | error earlier =>
      rw [bind_error read] at failed
      obtain rfl := Except.error.inj failed
      exact .inr ((careful_classHead _).blames context earlier read)
  | ok pair =>
      obtain ⟨head, rest⟩ := pair
      rw [bind_ok read, classBehind, bind_ok (remaining_apply context rest)] at failed
      have line := classHead_line read
      obtain ⟨_, _, taken, whole, spells, ⟨place, cls⟩, _, rfl, rfl, _⟩ :=
        repeats_classHead.of_ok (settled_onceMore context standard) read
      rw [whole] at standard ⊢
      have behind := (List.forall_mem_append.mp standard).2
      cases body : classBody place (qualify package cls.name.text) rest.length .empty context rest
        with
      | error earlier =>
          rw [headIn, bind_error body] at failed
          obtain rfl := Except.error.inj failed
          rcases classBody_error (Nat.le_refl _) behind body with ⟨rfl, members, spells'⟩ | blames
          · obtain rfl : place = next.line := line
            refine .inl ⟨{ cls with members }, ?_, rfl⟩
            rw [ClassTree.openWords_eq]
            exact spells.append spells'
          · exact .inr (blames.mono (List.suffix_append _ _))
      | ok pair =>
          rw [headIn, bind_ok body] at failed
          cases failed

/-! ## Packages -/

/-- The fault is on the line of a declaration that is left open. -/
def BlamesOpening (lexemes : List Lexeme) (fault : Fault) : Prop :=
  ∃ front lexeme rest, lexemes = front ++ lexeme :: rest ∧ fault.line = lexeme.line ∧
    LeftOpen front lexeme rest fault.reason

/-- Complete blocks in front change nothing about what is left open. -/
theorem BlamesOpening.behind {blocks : List (Located PackageTree)} {taken : List Lexeme}
    (spells : Spells (fileWords blocks) taken) (blames : BlamesOpening lexemes fault) :
    BlamesOpening (taken ++ lexemes) fault := by
  obtain ⟨line, reason⟩ := fault
  obtain ⟨front, lexeme, rest, rfl, place, leftOpen⟩ := blames
  refine ⟨taken ++ front, lexeme, rest, (List.append_assoc _ _ _).symm, place, ?_⟩
  have joined : ∀ more, fileWords (blocks ++ more) = fileWords blocks ++ fileWords more :=
    fun more => List.flatMap_append
  cases leftOpen with
  | package more package before opened =>
      refine .package (blocks ++ more) package ?_ opened
      rw [joined]
      exact spells.append before
  | cls more package cls before opened =>
      refine .cls (blocks ++ more) package cls ?_ opened
      rw [joined, List.append_assoc]
      exact spells.append before

theorem packageBody_error {line rounds : Nat} {package : String}
    {classes : OrderedMap String (Located ClassDecl)} (enough : lexemes.length ≤ rounds)
    (standard : ∀ lexeme ∈ lexemes, lexeme.Standard)
    (failed : packageBody line package rounds classes context lexemes = .error fault) :
    (fault = { line, reason := .unterminatedPackage package } ∧
      ∃ trees : List (Located ClassTree),
        Spells (trees.flatMap fun found => found.item.words) lexemes) ∨
    (∃ (trees : List (Located ClassTree)) (cls : ClassTree) (taken : List Lexeme) (next : Lexeme)
        (later : List Lexeme), lexemes = taken ++ next :: later ∧
      Spells (trees.flatMap fun found => found.item.words) taken ∧
      Spells cls.openWords (next :: later) ∧
      fault = { line := next.line, reason := .unterminatedClass (qualify package cls.name.text) }) ∨
    Blames context lexemes fault := by
  rcases block_error (blockLoop_packageBody line package)
    (fun _ _ _ standard read => tree_of_repeats (repeats_classDecl package)
      (fun tree => length_classWords_pos tree.item) standard read) enough standard failed with
    atEnd | ⟨trees, taken, next, later, rfl, spells, inside⟩ | ⟨found, rfl⟩
  · exact .inl atEnd
  · rcases classDecl_error (List.forall_mem_append.mp standard).2 inside with
      ⟨cls, opened, rfl⟩ | blames
    · exact .inr (.inl ⟨trees, cls, taken, next, later, rfl, spells, opened, rfl⟩)
    · exact .inr (.inr (blames.mono (List.suffix_append _ _)))
  · exact .inr (.inr trivial)

theorem careful_packageHead : Careful packageHead := by
  refine careful_currentLine.bind fun line => careful_skipWord.branch ?_ careful_unexpected
  exact careful_qualifiedName.bind fun _ => careful_expect.bind fun _ => careful_pure

theorem packageHead_line {next : Lexeme} {later rest : List Lexeme} {head : Nat × String}
    (read : packageHead context (next :: later) = .ok (head, rest)) : head.1 = next.line := by
  rw [packageHead_cons] at read
  split at read
  · obtain ⟨name, _, _, read⟩ := bind_eq_ok read
    obtain ⟨brace, _, _, read⟩ := bind_eq_ok read
    obtain ⟨rfl, _⟩ := pure_eq_ok read
    rfl
  · cases read

/-- A package block fails where it or a class in it is left open, or inside. -/
theorem packageBlock_error {packages : OrderedMap String (Located Package)} {next : Lexeme}
    {later : List Lexeme} (standard : ∀ lexeme ∈ next :: later, lexeme.Standard)
    (failed : packageBlock packages context (next :: later) = .error fault) :
    BlamesOpening (next :: later) fault ∨ Blames context (next :: later) fault := by
  rw [packageBlock_eq] at failed
  cases read : packageHead context (next :: later) with
  | error earlier =>
      rw [bind_error read] at failed
      obtain rfl := Except.error.inj failed
      exact .inr ((careful_packageHead _).blames context earlier read)
  | ok pair =>
      obtain ⟨⟨line, text⟩, rest⟩ := pair
      obtain rfl : line = next.line := packageHead_line read
      obtain ⟨_, _, taken, whole, spells, name, rfl, named, _⟩ :=
        repeats_packageHead.of_ok (settled_onceMore context standard) read
      obtain rfl : text = name.text := named
      have behind : ∀ lexeme ∈ rest, lexeme.Standard :=
        (List.forall_mem_append.mp (whole ▸ standard)).2
      rw [bind_ok read, packageBehind_apply] at failed
      cases body : packageBody next.line name.text rest.length
          (openedPackage packages next.line name.text).item.classes context rest with
      | error earlier =>
          rw [body] at failed
          obtain rfl := Except.error.inj failed
          rcases packageBody_error (Nat.le_refl _) behind body with ⟨rfl, classes, spells'⟩ |
            ⟨classes, cls, taken', next', later', rfl, spells', opened, rfl⟩ | blames
          · refine .inl ⟨[], next, later, rfl, rfl, .package [] ⟨name, classes⟩ .nil ?_⟩
            rw [whole, PackageTree.openWords_eq]
            exact spells.append spells'
          · refine .inl ⟨taken ++ taken', next', later', ?_, rfl,
              .cls [] ⟨name, classes⟩ cls ?_ opened⟩
            · rw [whole, List.append_assoc]
            · rw [PackageTree.openWords_eq]
              exact spells.append spells'
          · rw [whole]
            exact .inr (blames.mono (List.suffix_append _ _))
      | ok pair =>
          rw [body] at failed
          cases failed

theorem packageBlock_tells {packages packages' : OrderedMap String (Located Package)}
    {rest : List Lexeme} (standard : ∀ lexeme ∈ lexemes, lexeme.Standard)
    (read : packageBlock packages context lexemes = .ok (packages', rest)) :
    ∃ blocks taken, lexemes = taken ++ rest ∧ Spells (fileWords blocks) taken ∧ taken ≠ [] := by
  obtain ⟨blocks, _, ⟨fault, failed, _⟩ | ⟨taken, rest', whole, filled, spells, all, _⟩⟩ :=
    accumulates_packageBlock (settled_onceMore context standard)
  · have failed := failed packages
    rw [show (onceMore context).context = context from rfl, read] at failed
    cases declared : blocks.foldlM (blockFirst (onceMore context)) packages <;>
      rw [declared] at failed <;> cases failed
  · have all := all packages
    rw [show (onceMore context).context = context from rfl, read] at all
    cases declared : blocks.foldlM (blockFirst (onceMore context)) packages <;>
      rw [declared] at all <;> cases all
    exact ⟨blocks, taken, whole, spells, filled⟩

/-- The blocks of a text fail where one or a class in one is left open behind complete blocks,
or inside. -/
theorem packageBlocks_error {rounds : Nat} {packages : OrderedMap String (Located Package)}
    (standard : ∀ lexeme ∈ lexemes, lexeme.Standard)
    (failed : packageBlocks rounds packages context lexemes = .error fault) :
    BlamesOpening lexemes fault ∨ Blames context lexemes fault := by
  induction rounds generalizing lexemes packages with
  | zero => cases failed
  | succ rounds ih =>
      cases lexemes with
      | nil =>
          rw [packageBlocks_nil] at failed
          cases failed
      | cons next later =>
          rw [packageBlocks_cons] at failed
          cases read : packageBlock packages context (next :: later) with
          | error earlier =>
              rw [read] at failed
              obtain rfl := Except.error.inj failed
              exact packageBlock_error standard read
          | ok found =>
              obtain ⟨blocks, taken, whole, spells, _⟩ := packageBlock_tells standard read
              rw [read] at failed
              rw [whole] at standard ⊢
              rcases ih (List.forall_mem_append.mp standard).2 failed with opening | blames
              · exact .inl (opening.behind spells)
              · exact .inr (blames.mono (List.suffix_append _ _))

end Signature

end ApiCompat
