import ApiCompat.Proofs.Signature.Relined
import Mathlib.Data.List.Induction

/-!
# Reading two texts one behind the other

With a line feed between them, two texts that can be read under one null mode
are read as the merged description, the second one further down, unless a
class is in both (`read_append`).
-/

set_option autoImplicit false

namespace ApiCompat.Signature

open Grammar Reader

variable {mode : NullMode} {lexemes more : List Lexeme}

/-! ## The header -/

theorem splitLines_ne_nil (text : List Char) : splitLines text ≠ [] := by
  cases text with
  | nil => simp [splitLines]
  | cons c text =>
      unfold splitLines
      split
      · simp
      · split <;> simp

theorem splitLines_append (text later : List Char) :
    splitLines (text ++ '\n' :: later) = splitLines text ++ splitLines later := by
  induction text with
  | nil => simp [splitLines]
  | cons c text ih =>
      rw [List.cons_append, splitLines, splitLines, ih]
      split
      · rfl
      · cases shape : splitLines text with
        | nil => exact absurd shape (splitLines_ne_nil text)
        | cons line lines => rfl

theorem firstContentFrom_append (number : Nat) (lines later : List (List Char)) :
    firstContentFrom number (lines ++ later) =
      (firstContentFrom number lines).or (firstContentFrom (number + lines.length) later) := by
  induction lines generalizing number with
  | nil => rfl
  | cons line lines ih =>
      simp only [List.cons_append, firstContentFrom]
      split
      · rw [ih, List.length_cons, Nat.add_assoc, Nat.add_comm 1]
      · rfl

/-- The content does not depend on where the lines are counted from. -/
theorem firstContentFrom_number (number number' : Nat) (lines : List (List Char)) :
    (firstContentFrom number lines).map Prod.snd = (firstContentFrom number' lines).map Prod.snd := by
  induction lines generalizing number number' with
  | nil => rfl
  | cons line lines ih =>
      simp only [firstContentFrom]
      split
      · exact ih (number + 1) (number' + 1)
      · rfl

/-- The version that a text states, wherever its header is. -/
def statedVersion? (text : List Char) : Option String := (header? text).map Prod.snd

theorem statedVersion?_eq (number : Nat) (text : List Char) : statedVersion? text =
    ((firstContentFrom number (splitLines text)).map Prod.snd).bind headerVersion? := by
  rw [firstContentFrom_number number 1, statedVersion?, header?]
  cases firstContentFrom 1 (splitLines text) with
  | none => rfl
  | some content => cases headed : headerVersion? content.2 <;> simp [headed]

/-- The lines of a text up to a line feed decide, if there is any content in them. -/
theorem statedVersion?_lines (text later : List Char) :
    statedVersion? (text ++ '\n' :: later) =
      if (firstContentFrom 1 (splitLines text)).isSome then statedVersion? text
      else statedVersion? later := by
  rw [statedVersion?_eq 1, splitLines_append, firstContentFrom_append, statedVersion?_eq 1 text,
    statedVersion?_eq (1 + (splitLines text).length) later]
  cases firstContentFrom 1 (splitLines text) <;> rfl

theorem statedVersion?_append (text later : List Char) :
    statedVersion? (text ++ '\n' :: later) = statedVersion? text ∨
      statedVersion? (text ++ '\n' :: later) = statedVersion? later := by
  rw [statedVersion?_lines]
  split
  · exact .inl rfl
  · exact .inr rfl

theorem resolveMode_ok_iff {text : List Char} {found : NullMode} :
    resolveMode text (some mode) = .ok found ↔
      found = mode ∧ ∀ version ∈ statedVersion? text, NullMode.ofVersion? version = some mode := by
  rw [resolveMode, statedVersion?]
  cases header? text with
  | none => simp [eq_comm]
  | some place =>
      obtain ⟨line, version⟩ := place
      cases known : NullMode.ofVersion? version with
      | none => simp [known]
      | some implied =>
          by_cases same : mode = implied
          · simp [known, same, eq_comm]
          · simp [known, same, Ne.symm same]

theorem resolveMode_append {text later : List Char} {found found' : NullMode}
    (resolved : resolveMode text (some mode) = .ok found)
    (resolved' : resolveMode later (some mode) = .ok found') :
    resolveMode (text ++ '\n' :: later) (some mode) = .ok mode := by
  rw [resolveMode_ok_iff] at resolved resolved' ⊢
  refine ⟨rfl, ?_⟩
  rcases statedVersion?_append text later with same | same
  · rw [same]
    exact resolved.2
  · rw [same]
    exact resolved'.2

/-! ## The lexemes -/

theorem lastLine_append (front : List Lexeme) (filled : more ≠ []) :
    lastLine (front ++ more) = lastLine more := by
  rw [lastLine, lastLine, List.getLast?_append]
  cases shape : more.getLast? with
  | none => exact absurd (List.getLast?_eq_none_iff.mp shape) filled
  | some last => rfl

theorem lastLine_append_nil (front : List Lexeme) (none : more = []) :
    lastLine (front ++ more) = lastLine front := by
  rw [none, List.append_nil]

/-- The lexemes of a text read alone and with others behind them. -/
def beforeOthers (mode : NullMode) (lexemes more : List Lexeme) : Rerun :=
  .inPlace { nullMode := mode, endLine := lastLine lexemes }
    { nullMode := mode, endLine := lastLine (lexemes ++ more) } more (lastLine_append_nil lexemes)

/-- A text ends in a brace. -/
theorem getLast?_fileWords (blocks : List (Located PackageTree)) :
    ∀ last ∈ (fileWords blocks).getLast?, last = .rightBrace := by
  intro last member
  rcases List.eq_nil_or_concat blocks with rfl | ⟨blocks, block, rfl⟩
  · cases member
  · have ends : fileWords (blocks ++ [block]) =
        fileWords blocks ++ (.ident "package" :: (block.item.name.words ++ (.leftBrace ::
          block.item.classes.flatMap fun found => found.item.words))) ++ [.rightBrace] := by
      simp [fileWords, PackageTree.words]
    rw [List.concat_eq_append, ends, List.getLast?_append] at member
    exact (Option.some.inj member).symm

theorem getLast?_of_spells {words : List Word} (spells : Spells words lexemes) :
    ∀ last ∈ lexemes.getLast?, ∃ word ∈ words.getLast?, word.Matches last := by
  intro last member
  induction spells with
  | nil => cases member
  | @cons word lexeme words lexemes same spells ih =>
      cases spells with
      | nil =>
          obtain rfl := Option.some.inj member
          exact ⟨word, rfl, same⟩
      | cons _ _ =>
          rw [List.getLast?_cons_cons] at member
          obtain ⟨word', stored, found⟩ := ih member
          exact ⟨word', by rw [List.getLast?_cons_cons]; exact stored, found⟩

theorem notDot_of_read {packages : OrderedMap String (Located Package)}
    (standard : ∀ lexeme ∈ lexemes, lexeme.Standard)
    (whole : readPackages mode lexemes = .ok packages) :
    ∀ last ∈ lexemes.getLast?, last.kind ≠ .dot := by
  intro last member
  obtain ⟨blocks, _, ⟨fault, failed, _⟩ | ⟨spells, _, _⟩⟩ := readPackages_modes mode mode standard
  · exact absurd (failed.symm.trans whole) not_ok_of_failed
  · obtain ⟨word, stored, same⟩ := getLast?_of_spells spells last member
    rw [same.1, getLast?_fileWords blocks word stored]
    decide

/-- Behind a text that can be read, its packages are there and reading goes on. -/
theorem packageBlocks_before {packages : OrderedMap String (Located Package)}
    (standard : ∀ lexeme ∈ lexemes, lexeme.Standard)
    (whole : readPackages mode lexemes = .ok packages) (behind : List Lexeme) :
    ∃ left, behind.length ≤ left ∧
      (let context : Context := { nullMode := mode, endLine := lastLine (lexemes ++ behind) }
       packageBlocks (lexemes ++ behind).length .empty context (lexemes ++ behind) =
        packageBlocks left packages context behind) := by
  let run := beforeOthers mode lexemes behind
  have settled : run.Settled lexemes := ⟨standard, fun _ => notDot_of_read standard whole⟩
  have again : run.again lexemes = lexemes ++ behind := by
    simp [Rerun.again, run, beforeOthers, Rerun.inPlace]
  obtain ⟨blocks, _, ⟨fault, failed, _⟩ | ⟨_, all, left, enough, all'⟩⟩ :=
    accumulates_packageBlocks settled (Nat.le_refl _) (Nat.le_refl _)
  · exact absurd ((readPackages_failed (failed .empty)).symm.trans whole) not_ok_of_failed
  · have first : blocks.foldlM (blockFirst run) .empty = .ok packages :=
      (readPackages_all (all .empty)).symm.trans whole
    have second : blocks.foldlM (blockAgain run) .empty = .ok packages := by
      rw [foldlM_blockAgain_id rfl, ← first, foldlM_blockFirst]
      rfl
    have rest := all' .empty
    rw [second, again] at rest
    exact ⟨left, enough, rest⟩

/-- Further down and on top of other packages, a text declares the same blocks. -/
theorem packageBlocks_down {others : OrderedMap String (Located Package)}
    (standard : ∀ lexeme ∈ lexemes, lexeme.Standard)
    (whole : readPackages mode lexemes = .ok others) (bytes lines : Nat) {left : Nat}
    (enough : lexemes.length ≤ left) :
    ∃ blocks, Spells (fileWords blocks) lexemes ∧ packagesIn mode blocks = .ok others ∧
      ∀ packages, packageBlocks left packages
          { nullMode := mode, endLine := lastLine lexemes + lines }
          (lexemes.map (Lexeme.down bytes lines)) =
        ((blocks.map (blockIn mode)).map
            (Block.changed (· + lines) (ClassDecl.moved (· + lines)))).foldlM declareBlock packages >>=
          fun packages => .ok (packages, []) := by
  let run := relined mode (relines_down bytes lines) lexemes
  have settled : run.Settled lexemes := Rerun.settled_of_alone rfl standard
  have again : run.again lexemes = lexemes.map (Lexeme.down bytes lines) := by
    simp [Rerun.again, run, relined]
  have enough' : (run.again lexemes).length ≤ left := by rwa [again, List.length_map]
  obtain ⟨blocks, _, ⟨fault, failed, _⟩ | ⟨spells, all, left', _, all'⟩⟩ :=
    accumulates_packageBlocks settled (Nat.le_refl _) enough'
  · exact absurd ((readPackages_failed (failed .empty)).symm.trans whole) not_ok_of_failed
  · refine ⟨blocks, spells, ?_, fun packages => ?_⟩
    · rw [← whole, readPackages_all (all .empty), foldlM_blockFirst]
      rfl
    · have read := all' packages
      rw [again, foldlM_blockAgain] at read
      refine read.trans ?_
      exact congrArg (_ >>= ·) (funext fun packages => packageBlocks_nil left' packages _)

/-- Other lexemes are read behind those of a text as if the packages of the
text were there already. -/
theorem readPackages_append {packages others : OrderedMap String (Located Package)}
    (standard : ∀ lexeme ∈ lexemes, lexeme.Standard) (standard' : ∀ lexeme ∈ more, lexeme.Standard)
    (whole : readPackages mode lexemes = .ok packages)
    (whole' : readPackages mode more = .ok others) (gap : String) (bytes lines : Nat) :
    ∃ blocks, Spells (fileWords blocks) more ∧ packagesIn mode blocks = .ok others ∧
      readPackages mode (lexemes ++ widen gap (more.map (Lexeme.down bytes lines))) =
        ((blocks.map (blockIn mode)).map
          (Block.changed (· + lines) (ClassDecl.moved (· + lines)))).foldlM declareBlock packages := by
  by_cases filled : more = []
  · subst filled
    obtain rfl := Except.ok.inj whole'
    refine ⟨[], .nil, rfl, ?_⟩
    rw [List.map_nil, widen, List.append_nil, whole]
    rfl
  · let behind := widen gap (more.map (Lexeme.down bytes lines))
    have length : behind.length = more.length := by
      cases more <;> simp [behind, widen]
    have some : behind ≠ [] := by
      rw [← List.length_pos_iff, length]
      exact List.length_pos_iff.mpr filled
    have endLine : lastLine (lexemes ++ behind) = lastLine more + lines := by
      rw [lastLine_append lexemes some, lastLine_widen, (relines_down bytes lines).lastLine filled]
    obtain ⟨left, enough, goesOn⟩ := packageBlocks_before standard whole behind
    rw [length] at enough
    obtain ⟨blocks, spells, declared, read⟩ := packageBlocks_down standard' whole' bytes lines enough
    have enough' : (more.map (Lexeme.down bytes lines)).length ≤ left := by
      rwa [List.length_map]
    have wide : packageBlocks left packages
        { nullMode := mode, endLine := lastLine (lexemes ++ behind) } behind =
          packageBlocks left packages { nullMode := mode, endLine := lastLine more + lines }
            (more.map (Lexeme.down bytes lines)) := by
      rw [packageBlocks_widen enough', endLine]
    exact ⟨blocks, spells, declared, readPackages_all (goesOn.trans (wide.trans (read packages)))⟩

/-! ## The merged description -/

theorem read_ok_iff {source text : String} {api : Api} :
    read source text (some mode) = .ok api ↔
      resolveMode text.toList (some mode) = .ok mode ∧ ∃ lexemes packages,
        tokenize text = .ok lexemes ∧ readPackages mode lexemes = .ok packages ∧
          api = { source, nullMode := mode, packages } := by
  constructor
  · intro whole
    unfold read at whole
    cases resolved : resolveMode text.toList (some mode) with
    | error fault => simp [resolved] at whole
    | ok found =>
        obtain rfl := (resolveMode_ok_iff.mp resolved).1
        cases tokenized : tokenize text with
        | error place => simp [resolved, tokenized] at whole
        | ok lexemes =>
            cases declared : readPackages found lexemes with
            | error fault => simp [resolved, tokenized, declared] at whole
            | ok packages =>
                simp only [resolved, tokenized, declared, Except.ok.injEq] at whole
                exact ⟨rfl, lexemes, packages, rfl, declared, whole.symm⟩
  · rintro ⟨resolved, lexemes, packages, tokenized, declared, rfl⟩
    simp [read, resolved, tokenized, declared]

/-- The text of the second description declares its classes further down, on top
of the first description. -/
theorem read_append_eq {source text later : String} {first second : Api}
    (whole : read source text (some mode) = .ok first)
    (whole' : read source later (some mode) = .ok second) :
    let down := fun line => line + (lineFeeds text.toList + 1)
    ∃ lexemes blocks, tokenize later = .ok lexemes ∧ Spells (fileWords blocks) lexemes ∧
      packagesIn mode blocks = .ok second.packages ∧
      read source (text ++ "\n" ++ later) (some mode) =
        unlessTaken ((firstTaken first.packages (declaredIn (blocks.map (blockIn mode)))).map
          (Located.move down (ClassDecl.moved down))) (first.merge (second.moved down)) := by
  intro down
  obtain ⟨resolved, lexemes, packages, tokenized, read, rfl⟩ := read_ok_iff.mp whole
  obtain ⟨resolved', lexemes', others, tokenized', read', rfl⟩ := read_ok_iff.mp whole'
  obtain ⟨bytes, gap, joined⟩ := tokenize_append tokenized tokenized'
  obtain ⟨blocks, spells, declared, behind⟩ :=
    readPackages_append (standard_of_tokenize tokenized) (standard_of_tokenize tokenized') read read'
      gap bytes (lineFeeds text.toList + 1)
  have resolvedBoth : resolveMode (text ++ "\n" ++ later).toList (some mode) = .ok mode := by
    have shape : (text ++ "\n" ++ later).toList = text.toList ++ '\n' :: later.toList := by simp
    rw [shape]
    exact resolveMode_append resolved resolved'
  have moved : ((blocks.map (blockIn mode)).map
      (Block.changed down (ClassDecl.moved down))).foldlM declareBlock .empty =
        .ok (changePackages down (ClassDecl.moved down) others) := by
    have changed := foldlM_declareBlock_changed down (keepsNames_moved down)
      (blocks.map (blockIn mode)) .empty
    have own : (blocks.map (blockIn mode)).foldlM declareBlock .empty = .ok others := declared
    rw [own] at changed
    exact changed.symm
  have merged := foldlM_declareBlock_merge packages moved
  rw [OrderedMap.merge_empty, firstTaken_changed packages (keepsNames_moved down)] at merged
  refine ⟨lexemes', blocks, tokenized', spells, declared, ?_⟩
  rw [read_eq_of source resolvedBoth joined, behind, merged]
  cases firstTaken packages (declaredIn (blocks.map (blockIn mode))) <;> rfl

/-- Two texts with a line feed between them are read as the merged description
where no class is in both, and all classes are kept.  Otherwise the first class
of the second text that is also in the first one is the fault. -/
theorem read_append {source text later : String} {first second : Api}
    (whole : read source text (some mode) = .ok first)
    (whole' : read source later (some mode) = .ok second) :
    let down := fun line => line + (lineFeeds text.toList + 1)
    ∃ lexemes blocks, tokenize later = .ok lexemes ∧ Spells (fileWords blocks) lexemes ∧
      packagesIn mode blocks = .ok second.packages ∧
      (((∀ package name, first.classIn? package name = none ∨ second.classIn? package name = none) ∧
        read source (text ++ "\n" ++ later) (some mode) = .ok (first.merge (second.moved down)) ∧
        (∀ package name, (first.merge (second.moved down)).classIn? package name =
          (first.classIn? package name).or ((second.moved down).classIn? package name)) ∧
        (first.merge (second.moved down)).packages.keys = first.packages.keys ++
          second.packages.keys.filter fun package => !first.packages.contains package) ∨
      ∃ before package cls after,
        declaredIn (blocks.map (blockIn mode)) = before ++ (package, cls) :: after ∧
        (∀ entry ∈ before, first.classIn? entry.1 entry.2.item.name = none) ∧
        (first.classIn? package cls.item.name).isSome ∧
        second.classIn? package cls.item.name = some cls ∧
        read source (text ++ "\n" ++ later) (some mode) =
          .error { line := down cls.line, reason := .duplicateClass cls.item.qualifiedName }) := by
  intro down
  obtain ⟨lexemes, blocks, tokenized, spells, declared, outcome⟩ := read_append_eq whole whole'
  have stored := classAt?_foldlM_declareBlock declared
  refine ⟨lexemes, blocks, tokenized, spells, declared, ?_⟩
  rw [outcome, firstTaken]
  cases clash : (declaredIn (blocks.map (blockIn mode))).find? fun entry =>
      (classAt? first.packages entry.1 entry.2.item.name).isSome with
  | none =>
      refine .inl ⟨fun package name => ?_, rfl, classAt?_merge _ _, ?_⟩
      · cases other : second.classIn? package name with
        | none => exact .inr rfl
        | some cls =>
            refine .inl ?_
            rcases (stored package name cls).mp other with nothing | ⟨member, rfl⟩
            · cases nothing
            · have free := List.find?_eq_none.mp clash _ member
              rwa [Bool.not_eq_true, Option.isSome_eq_false_iff, Option.isNone_iff_eq_none] at free
      · rw [Api.merge, OrderedMap.keys_merge]
        exact congrArg (fun keys => _ ++ List.filter _ keys) (OrderedMap.keys_mapValues _ _)
  | some entry =>
      obtain ⟨package, cls⟩ := entry
      obtain ⟨taken, before, after, shape, free⟩ := List.find?_eq_some_iff_append.mp clash
      refine .inr ⟨before, package, cls, after, shape, fun entry member => ?_, taken, ?_, rfl⟩
      · have free := free entry member
        rwa [Bool.not_eq_true', Option.isSome_eq_false_iff, Option.isNone_iff_eq_none] at free
      · refine (stored package cls.item.name cls).mpr (.inr ⟨?_, rfl⟩)
        rw [shape]
        exact List.mem_append_right _ List.mem_cons_self

def commentedText : String := "package p \x7b\n  class A \x7b \x7d\n\x7d // and more"

def moreText : String := "package q \x7b \x7d\npackage p \x7b class B \x7b \x7d \x7d"

theorem read_append_commented : ∃ first second,
    read "api.txt" commentedText (some .nullAware) = .ok first ∧
      read "api.txt" moreText (some .nullAware) = .ok second ∧
      read "api.txt" (commentedText ++ "\n" ++ moreText) (some .nullAware) =
        .ok (first.merge (second.moved fun line => line + (lineFeeds commentedText.toList + 1))) := by
  obtain ⟨first, whole⟩ := exists_of_isOk
    (show (read "api.txt" commentedText (some .nullAware)).isOk = true by decide +kernel)
  obtain ⟨second, whole'⟩ := exists_of_isOk
    (show (read "api.txt" moreText (some .nullAware)).isOk = true by decide +kernel)
  refine ⟨first, second, whole, whole', ?_⟩
  obtain ⟨_, _, _, _, _, ⟨_, merged, _⟩ | ⟨_, _, _, _, _, _, _, _, clash⟩⟩ :=
    read_append whole whole'
  · exact merged
  · have some : (read "api.txt" (commentedText ++ "\n" ++ moreText) (some .nullAware)).isOk = true := by
      decide +kernel
    rw [clash] at some
    cases some

end ApiCompat.Signature
