import ApiCompat.Proofs.Signature.Replaced

/-!
# Declarations with their fronts rearranged

A declaration is read from a front and from what is behind it.  With the items
of its front in another order the same declaration is read
(`classDecl_rearranged`, `member_rearranged`), and so the same API from the
whole text (`read_rearranged`).
-/

set_option autoImplicit false

namespace ApiCompat.Signature

open Reader

variable {context : Context} {lexemes later rest after : List Lexeme}
  {front front' regapped : List FrontItem}

theorem FrontOf.read {found : Preamble} (isFront : FrontOf {} found lexemes front after)
    (context : Context) : preamble context lexemes = .ok (found, after) :=
  preamble_eq_ok_iff.mpr ⟨front, isFront⟩

theorem FrontOf.read_eq {found found' : Preamble} {behind : List Lexeme}
    (isFront : FrontOf {} found lexemes front after)
    (read : preamble context lexemes = .ok (found', behind)) : found' = found ∧ behind = after :=
  Prod.mk.inj (Except.ok.inj (read.symm.trans (isFront.read context)))

theorem Leading.regapFirst {α : Type} {reader : Reader α} (leading : Leading reader)
    (advances : Advances reader) {value : α} (read : reader context lexemes = .ok (value, rest))
    (gap : String) : reader context (regapFirst gap lexemes) = .ok (value, rest) := by
  cases lexemes with
  | nil => exact read
  | cons first later => exact leading.sees_start advances read rfl

theorem member_rearranged {keyword : Lexeme} {found : Located Member} {said : Preamble}
    (read : member context (keyword :: later) = .ok (found, rest))
    (isFront : FrontOf {} said later front after) (rearranges : Rearranges front front')
    (gaps : Regapped front' regapped) (gap : String) :
    member context (keyword :: (frontLexemes regapped ++ regapFirst gap after)) =
      .ok (found, rest) := by
  obtain ⟨keyword', later', said', after', whole, isWord, readFront, readBody, known⟩ :=
    member_eq_ok_iff.mp read
  obtain ⟨rfl, rfl⟩ := List.cons.inj whole
  obtain ⟨rfl, rfl⟩ := isFront.read_eq readFront
  have leading := leading_memberBody keyword.text keyword.line said'
  have advances := advances_memberBody keyword.text keyword.line said'
  have isFront' := isFront.rearranged (leading.leadsOn advances readBody) rearranges gaps gap
  exact member_eq_ok_iff.mpr ⟨keyword, _, said', _, rfl, isWord, isFront'.read context,
    leading.regapFirst advances readBody gap, known⟩

/-- The line of a class is that of its first lexeme; the rest of it stays. -/
theorem classDecl_rearranged {package : String} {cls : Located ClassDecl} {said : Preamble}
    (read : classDecl package context lexemes = .ok (cls, rest))
    (isFront : FrontOf {} said lexemes front after) (rearranges : Rearranges front front')
    (gaps : Regapped front' regapped) (gap : String) :
    ∃ cls', classDecl package context (frontLexemes regapped ++ regapFirst gap after) =
      .ok (cls', rest) ∧ cls'.item = cls.item := by
  obtain ⟨head, body, members, close, classRead⟩ := classDecl_eq_ok_iff.mp read
  obtain ⟨line, said', after', _, readFront, readBody⟩ := classHead_eq_ok_iff.mp classRead.readHead
  obtain ⟨rfl, rfl⟩ := isFront.read_eq readFront
  have leading := leading_classHeadBody line said'
  have advances := advances_classHeadBody line said'
  have isFront' := isFront.rearranged (leading.leadsOn advances readBody) rearranges gaps gap
  have readBody' := leading.regapFirst advances readBody gap
  obtain ⟨line', readLine⟩ : ∃ line',
      currentLine context (frontLexemes regapped ++ regapFirst gap after') =
        .ok (line', frontLexemes regapped ++ regapFirst gap after') := by
    cases frontLexemes regapped ++ regapFirst gap after' <;> exact ⟨_, rfl⟩
  have readHead := classHead_eq_ok_iff.mpr ⟨line', said', _, readLine, isFront'.read context,
    (classHeadBody_eq_ok readBody').2 line'⟩
  obtain ⟨map, declared, rfl⟩ := classRead.stored
  exact ⟨_, classDecl_eq_ok_iff.mpr ⟨_, body, members, close, readHead, classRead.isClose,
    classRead.inTurn, map, declared, rfl⟩, rfl⟩

/-! ## Whole texts -/

/-- The lexemes of the text with another front behind the first ones. -/
def refrontedWords (before : List Lexeme) (front : List FrontItem) (after : List Lexeme) :
    List Word :=
  before.map Lexeme.word ++ (looseFront front ++ loosen (after.map Lexeme.word))

/-- Behind the first lexemes of a text stands a declaration with its front.  With the items of this
front rearranged the text is read as the same API but for lines. -/
structure FrontMoves (api : Api) (requested : Option NullMode) (before start : List Lexeme) :
    Prop where
  front : ∃ said front after, FrontOf {} said start front after
  moves : ∀ said front after, FrontOf {} said start front after →
    ∀ front', Rearranges front front' → ∀ source text lexemes, tokenize text = .ok lexemes →
      Spells (refrontedWords before front' after) lexemes →
      ∃ api', read source text requested = .ok api' ∧ api.same api' = true ∧
        api.unplaced = api'.unplaced

theorem regapped_of_refronted {before : List Lexeme}
    (spells : Spells (refrontedWords before front after) lexemes) :
    ∃ regapped gap, Regapped front regapped ∧
      Spells ((before ++ (frontLexemes regapped ++ regapFirst gap after)).map Lexeme.word)
        lexemes := by
  obtain ⟨first, behind, rfl, spellsFirst, spells⟩ := Spells.split spells
  obtain ⟨own, last, rfl, spellsOwn, spellsLast⟩ := Spells.split spells
  obtain ⟨regapped, gaps, spellsOwn⟩ := regapped_of_spells spellsOwn
  obtain ⟨gap, spellsLast⟩ := spells_regapFirst spellsLast
  refine ⟨regapped, gap, gaps, ?_⟩
  rw [List.map_append, List.map_append]
  exact Spells.append spellsFirst (Spells.append spellsOwn spellsLast)

/-- The fronts of all classes and of all members of the text may be rearranged. -/
def FrontsMove (api : Api) (requested : Option NullMode) (lexemes : List Lexeme) : Prop :=
  ∀ package ∈ api.packages.values, ∀ cls ∈ package.item.classes.values,
    ∃ (place : ClassPlace (contextOf api.nullMode lexemes) lexemes package.item.name cls)
      (before : List Lexeme), lexemes = before ++ place.start ∧
      FrontMoves api requested before place.start ∧
      ∀ found ∈ cls.item.members.values,
        ∃ (inner : MemberPlace package.item.name (contextOf api.nullMode lexemes) place.start cls
            place.behind found) (earlier : List Lexeme) (keyword : Lexeme) (later : List Lexeme),
          place.start = earlier ++ inner.start ∧ inner.start = keyword :: later ∧
          FrontMoves api requested (before ++ (earlier ++ [keyword])) later

variable {source text : String} {requested : Option NullMode} {api : Api}

/-- In every text that is read, the front of each class and of each member may be rearranged. -/
theorem read_rearranged (whole : read source text requested = .ok api) :
    ∃ lexemes, LexedAs api source text requested lexemes ∧ FrontsMove api requested lexemes := by
  obtain ⟨lexemes, lexed⟩ := read_eq_ok_iff.mp whole
  refine ⟨lexemes, lexed, fun package stored cls inPackage => ?_⟩
  obtain ⟨place, declared⟩ := classPlace_of_read whole lexed package stored cls inPackage
  obtain ⟨before, split, replaced⟩ := read_replaced lexed place declared
  refine ⟨place, before, split, ⟨?_, ?_⟩, fun found inClass => ?_⟩
  · obtain ⟨head, body, members, close, classRead⟩ := classDecl_eq_ok_iff.mp place.read
    obtain ⟨_, said, after, _, readFront, _⟩ := classHead_eq_ok_iff.mp classRead.readHead
    obtain ⟨front, isFront⟩ := preamble_eq_ok_iff.mp readFront
    exact ⟨said, front, after, isFront⟩
  · intro said front after isFront front' rearranges source' text' lexemes' tokenized spells
    obtain ⟨regapped, gap, gaps, spells⟩ := regapped_of_refronted spells
    obtain ⟨cls', read', same⟩ := classDecl_rearranged place.read isFront rearranges gaps gap
    obtain ⟨api', readText, unplaced⟩ :=
      replaced _ cls' read' same source' text' lexemes' tokenized spells
    exact ⟨api', readText, Api.same_of_unplaced unplaced, unplaced⟩
  · obtain ⟨inner⟩ := memberPlace_of_classDecl place.read found inClass
    obtain ⟨earlier, split', again⟩ := inner.replace
    obtain ⟨keyword, later, said, after, shape, _, readFront, _, _⟩ :=
      member_eq_ok_iff.mp inner.read
    refine ⟨inner, earlier, keyword, later, split', shape, ⟨?_, ?_⟩⟩
    · obtain ⟨front, isFront⟩ := preamble_eq_ok_iff.mp readFront
      exact ⟨said, front, after, isFront⟩
    · intro said front after isFront front' rearranges source' text' lexemes' tokenized spells
      obtain ⟨regapped, gap, gaps, spells⟩ := regapped_of_refronted spells
      have readMember := member_rearranged (shape ▸ inner.read) isFront rearranges gaps gap
      have readClass := again _ readMember
      have spells : Spells ((before ++ (earlier ++ keyword ::
          (frontLexemes regapped ++ regapFirst gap after))).map Lexeme.word) lexemes' := by
        simpa using spells
      obtain ⟨api', readText, unplaced⟩ :=
        replaced _ cls readClass rfl source' text' lexemes' tokenized spells
      exact ⟨api', readText, Api.same_of_unplaced unplaced, unplaced⟩

/-! ## A text with a rearranged front -/

def memberKeywords : List String := ["ctor", "method", "field", "enum_constant"]

theorem memberBody_cases (keyword : String) (line : Nat) (front : Preamble) :
    keyword ∈ memberKeywords ∨
      memberBody keyword line front = failAt line (.unsupportedMember keyword) := by
  unfold memberBody
  split
  · exact .inl (by decide)
  · exact .inl (by decide)
  · exact .inl (by decide)
  · exact .inl (by decide)
  · exact .inr rfl

theorem keyword_of_member {keyword : Lexeme} {found : Located Member}
    (read : member context (keyword :: later) = .ok (found, rest)) :
    keyword.text ∈ memberKeywords := by
  obtain ⟨keyword', _, said, body, whole, _, _, readBody, _⟩ := member_eq_ok_iff.mp read
  obtain ⟨rfl, _⟩ := List.cons.inj whole
  rcases memberBody_cases keyword.text keyword.line said with known | unknown
  · exact known
  · rw [unknown] at readBody
    cases readBody

/-- Where a single item passes a test, a list is cut at it in one way. -/
theorem cut_of_countP {α : Type} {test : α → Bool} {items before behind : List α} {item : α}
    (once : items.countP test = 1) (whole : items = before ++ item :: behind)
    (passes : test item = true) :
    items.takeWhile (fun item => !test item) = before ∧
      items.dropWhile (fun item => !test item) = item :: behind := by
  subst whole
  have noneBefore : before.countP test = 0 := by
    rw [List.countP_append, List.countP_cons_of_pos passes] at once
    omega
  have fails : ∀ item ∈ before, (!test item) = true := by
    intro item member
    simpa using List.countP_eq_zero.mp noneBefore item member
  rw [List.takeWhile_append_of_pos fails, List.dropWhile_append_of_pos fails]
  simp [passes]

def frontText : String :=
  "package p \x7b class C \x7b field @B static @Nullable public A x; \x7d \x7d"

/-- The front of the field is rearranged, and a word of it repeated. -/
def refrontedText : String :=
  "package p \x7b class C \x7b field static @Nullable @B\n public static A x; \x7d \x7d"

def bareUse (name gap : String) (start : Nat) : AnnotationUse where
  sign := ⟨.atSign, "@", gap, start, 1⟩
  first := ⟨.identifier, name, "", start + 1, 1⟩
  dotted := []
  arguments := []
  isSign := rfl
  isWord := rfl
  areDotted := List.forall_mem_nil _
  enclosed := .inl rfl

def keptItem : FrontItem := .annotated (bareUse "B" " " 28) (by decide)

def flagItem : FrontItem :=
  .modifier ⟨⟨.identifier, "static", " ", 31, 1⟩, .flag .staticFlag, rfl, by decide +kernel⟩

def markItem : FrontItem := .annotated (bareUse "Nullable" " " 38) (by decide)

def scopeItem : FrontItem :=
  .modifier ⟨⟨.identifier, "public", " ", 48, 1⟩, .scope .publicScope, rfl, by decide +kernel⟩

def fieldFront : List FrontItem := [keptItem, flagItem, markItem, scopeItem]

def refrontedItems : List FrontItem := [flagItem, markItem, keptItem, scopeItem] ++ [flagItem]

def behindFront : List Lexeme :=
  [⟨.identifier, "A", " ", 55, 1⟩, ⟨.identifier, "x", " ", 57, 1⟩, ⟨.semicolon, ";", "", 58, 1⟩,
    ⟨.rightBrace, "\x7d", " ", 60, 1⟩, ⟨.rightBrace, "\x7d", " ", 62, 1⟩]

theorem kept?_keptItem : keptItem.kept?.isSome = true := by decide +kernel

theorem nullness?_keptItem : keptItem.nullness? = none := by decide +kernel

theorem kept?_markItem : markItem.kept? = none := by decide +kernel

theorem rearranges_fieldFront : Rearranges fieldFront refrontedItems := by
  have permuted : ([flagItem, markItem] ++ keptItem :: [scopeItem]).Perm
      (keptItem :: ([flagItem, markItem] ++ [scopeItem])) := List.perm_middle
  have kept : [flagItem, markItem, keptItem, scopeItem].filter (fun item => item.kept?.isSome) =
      fieldFront.filter fun item => item.kept?.isSome := by
    have flag : flagItem.kept? = none := rfl
    have scope : scopeItem.kept? = none := rfl
    simp [fieldFront, kept?_keptItem, kept?_markItem, flag, scope]
  have repeated : Rearranges ([flagItem, markItem, keptItem, scopeItem] ++ [])
      ([flagItem, markItem, keptItem, scopeItem] ++ flagItem :: []) :=
    rearranges_repeat (by simp) rfl rfl
  exact (rearranges_of_perm permuted kept rfl).trans repeated

theorem endsBefore_bareUse {name gap : String} {start : Nat} (free : name ≠ "interface")
    {next : Lexeme} (noParen : next.kind ≠ .leftParen) (noDot : next.kind ≠ .dot)
    (behind : List Lexeme) :
    (FrontItem.annotated (bareUse name gap start) free).EndsBefore (next :: behind) := by
  rintro use _ same
  obtain rfl := FrontItem.annotated.inj same
  refine ⟨fun _ => by simpa using noParen, fun _ dot word later whole => ?_⟩
  obtain ⟨rfl, _⟩ := List.cons.inj whole
  exact fun kinds => noDot kinds.1

theorem frontOf_fieldFront :
    ∃ said, FrontOf {} said (frontLexemes fieldFront ++ behindFront) fieldFront behindFront := by
  have whole : frontLexemes fieldFront ++ behindFront = keptItem.lexemes ++ (flagItem.lexemes ++
      (markItem.lexemes ++ (scopeItem.lexemes ++ behindFront))) := by
    simp [frontLexemes, fieldFront]
  have ends : EndsFront behindFront := ⟨by decide +kernel, by decide +kernel⟩
  have agrees : markItem.Agrees ((Preamble.addItem {} keptItem).addItem flagItem) := by
    intro mark _ other before
    rw [Preamble.addItem, Preamble.addItem, nullness?_keptItem] at before
    cases before
  rw [whole]
  refine ⟨_, .cons (.cons (.cons (.cons (frontOf_nothing ends) ?_ ?_) ?_ agrees) ?_ ?_) ?_ ?_⟩
  · exact FrontItem.endsBefore_modifier _ _
  · exact FrontItem.agrees_of_unmarked rfl _
  · exact endsBefore_bareUse _ TokenKind.noConfusion TokenKind.noConfusion _
  · exact FrontItem.endsBefore_modifier _ _
  · exact FrontItem.agrees_of_unmarked rfl _
  · exact endsBefore_bareUse _ TokenKind.noConfusion TokenKind.noConfusion _
  · exact FrontItem.agrees_of_unmarked nullness?_keptItem _

def beforeFront : List Lexeme :=
  [⟨.identifier, "package", "", 0, 1⟩, ⟨.identifier, "p", " ", 8, 1⟩,
    ⟨.leftBrace, "\x7b", " ", 10, 1⟩, ⟨.identifier, "class", " ", 12, 1⟩,
    ⟨.identifier, "C", " ", 18, 1⟩, ⟨.leftBrace, "\x7b", " ", 20, 1⟩]

def fieldKeyword : Lexeme := ⟨.identifier, "field", " ", 22, 1⟩

theorem tokenize_frontText : tokenize frontText =
    .ok (beforeFront ++ fieldKeyword :: (frontLexemes fieldFront ++ behindFront)) := by
  decide +kernel

theorem spells_refrontedText : ∃ lexemes, tokenize refrontedText = .ok lexemes ∧
    Spells (refrontedWords (beforeFront ++ [fieldKeyword]) refrontedItems behindFront) lexemes := by
  have spelled : ∃ lexemes ∈ (tokenize refrontedText).toOption,
      Spells (refrontedWords (beforeFront ++ [fieldKeyword]) refrontedItems behindFront)
        lexemes := by
    decide +kernel
  cases tokenized : tokenize refrontedText with
  | error place => simp [tokenized, Except.toOption] at spelled
  | ok lexemes => simpa [tokenized, Except.toOption] using spelled

/-- The text with the front rearranged is read as the same API. -/
theorem read_rearranged_frontText :
    Rearranges fieldFront refrontedItems ∧
    ∃ api api', read "api.txt" frontText none = .ok api ∧
      read "api.txt" refrontedText none = .ok api' ∧ api.same api' = true ∧
      api.unplaced = api'.unplaced := by
  have filled : (read "api.txt" frontText none).toOption.map (fun api =>
      api.packages.values.any fun package => package.item.classes.values.any fun cls =>
        cls.item.members.values.any fun _ => true) = some true := by
    decide +kernel
  obtain ⟨_, api, _, whole, filled⟩ := exists_of_read filled
  obtain ⟨package, stored, filled⟩ := List.any_eq_true.mp filled
  obtain ⟨cls, inPackage, filled⟩ := List.any_eq_true.mp filled
  obtain ⟨found, inClass, _⟩ := List.any_eq_true.mp filled
  obtain ⟨lexemes, lexed, fronts⟩ := read_rearranged whole
  obtain rfl := Except.ok.inj (lexed.tokenized.symm.trans tokenize_frontText)
  obtain ⟨place, before, split, _, inMembers⟩ := fronts package stored cls inPackage
  obtain ⟨inner, earlier, keyword, later, split', shape, fieldMoves⟩ := inMembers found inClass
  let test : Lexeme → Bool := fun lexeme => memberKeywords.contains lexeme.text
  have isKeyword : test keyword = true :=
    List.contains_iff_mem.mpr (keyword_of_member (shape ▸ inner.read))
  -- The keyword of a member stands only once in the text, so the member is the field.
  have once : (beforeFront ++ fieldKeyword :: (frontLexemes fieldFront ++ behindFront)).countP
      test = 1 := by decide +kernel
  have cut : beforeFront ++ fieldKeyword :: (frontLexemes fieldFront ++ behindFront) =
      (before ++ earlier) ++ keyword :: later := by
    rw [split, split', shape, List.append_assoc]
  obtain ⟨first, last⟩ := cut_of_countP once cut isKeyword
  obtain ⟨first', last'⟩ := cut_of_countP once rfl (by decide)
  have sameFirst : before ++ earlier = beforeFront := first.symm.trans first'
  obtain ⟨rfl, rfl⟩ := List.cons.inj (last'.symm.trans last)
  rw [← List.append_assoc, sameFirst] at fieldMoves
  obtain ⟨said, isFront⟩ := frontOf_fieldFront
  obtain ⟨lexemes', tokenized, spells⟩ := spells_refrontedText
  obtain ⟨api', whole', same⟩ := fieldMoves.moves said fieldFront behindFront isFront refrontedItems
    rearranges_fieldFront "api.txt" refrontedText lexemes' tokenized spells
  exact ⟨rearranges_fieldFront, api, api', whole, whole', same⟩

end ApiCompat.Signature
