import ApiCompat.Proofs.Respaced.Quoted
import ApiCompat.Proofs.Respaced.Texts
import ApiCompat.Proofs.Signature.Bodies
import ApiCompat.Proofs.Signature.Places

/-!
# Verbatim texts are exact

Annotations and values are kept as they are written.  An annotation is quoted
from its sign up to the end of its name, or to the parenthesis that balances
the first one behind it (`QuotedFront`); a value is quoted from behind its sign
up to the first semicolon (`QuotedValue`).  Whatever is stored of a text is
quoted so from the place where it is read (`read_verbatims`).
-/

set_option autoImplicit false

namespace ApiCompat.Signature

open Reader

/-! ## Places in the text -/

variable {context : Context} {lexemes rest : List Lexeme}

theorem ClassPlace.start_suffix {package : String} {cls : Located ClassDecl}
    (place : ClassPlace context lexemes package cls) : place.start <:+ lexemes := by
  have body := (careful_packageHead _).leaves _ _ _ place.readPackage
  exact (place.inBlock.suffix.trans body).trans place.inFile.suffix

theorem MemberPlace.start_suffix {package : String} {cls : Located ClassDecl}
    {classEnd : List Lexeme} {found : Located Member}
    (place : MemberPlace package context lexemes cls classEnd found) : place.start <:+ lexemes :=
  place.inClass.suffix.trans ((careful_classHead _).leaves _ _ _ place.readHead)

/-- A run of lexemes of a text is quoted from it. -/
theorem quotes_of_suffix {text : String} {whole taken after : List Lexeme}
    (found : tokenize text = .ok whole) (suffix : taken ++ after <:+ whole) (filled : taken ≠ []) :
    Quotes text taken (Lexeme.sourceText taken) := by
  obtain ⟨before, rfl⟩ := suffix
  exact quotes_of_tokenize found filled

/-! ## Annotations -/

/-- The front that is read from the lexemes; the annotations are those of it that are kept, each
quoted from the text. -/
structure QuotedFront (text : String) (context : Context) (lexemes : List Lexeme)
    (annotations : List String) where
  found : Preamble
  front : List FrontItem
  rest : List Lexeme
  read : preamble context lexemes = .ok (found, rest)
  isFront : FrontOf {} found lexemes front rest
  kept : annotations = front.filterMap FrontItem.kept?
  quotes : ∀ use free, .annotated use free ∈ front → Quotes text use.lexemes use.source

theorem quotedFront_of_preamble {text : String} {whole : List Lexeme}
    (tokenized : tokenize text = .ok whole) (suffix : lexemes <:+ whole) {found : Preamble}
    (read : preamble context lexemes = .ok (found, rest)) :
    Nonempty (QuotedFront text context lexemes found.modifiers.annotations) := by
  obtain ⟨front, isFront⟩ := preamble_eq_ok read
  refine ⟨⟨found, front, rest, read, isFront, ?_, fun use free member => ?_⟩⟩
  · rw [isFront.modifiers]
    exact annotations_foldl_apply front {}
  · obtain ⟨behind, inFront, _⟩ := isFront.annotation member
    exact quotes_of_suffix tokenized (inFront.trans suffix) (List.cons_ne_nil _ _)

/-! ## Values -/

/-- What is read of a member between its front and its value. -/
def beforeValue (front : Preamble) : Member → Reader Unit
  | .constructor _ => pure ()
  | .method _ => do
      let _ ← typeParams
      let _ ← typeRef front.nullness
      let _ ← identifier .methodName
      let _ ← parameters
      let _ ← throwsClause
      return ()
  | .field _ => do
      let _ ← typeRef front.nullness
      let _ ← identifier .fieldName
      return ()

theorem careful_beforeValue (front : Preamble) (member : Member) :
    Careful (beforeValue front member) := by
  cases member with
  | constructor item => exact careful_pure
  | method item =>
      refine careful_typeParams.bind fun _ => careful_typeRef.bind fun _ => ?_
      refine careful_identifier.bind fun _ => careful_parameters.bind fun _ => ?_
      exact careful_throwsClause.bind fun _ => careful_pure
  | field item =>
      exact careful_typeRef.bind fun _ => careful_identifier.bind fun _ => careful_pure

/-- The lexeme stands before the value of the member. -/
def Announces (sign : Lexeme) : Member → Prop
  | .constructor _ => False
  | .method _ => sign.isWord "default" = true
  | .field _ => sign.kind = .equals

/-- The value that is read from these lexemes: all that stands between its sign and the next
semicolon, and nothing less. -/
structure ValueAt (context : Context) (front : Preamble) (body : List Lexeme) (member : Member)
    (value : String) where
  sign : Lexeme
  taken : List Lexeme
  semicolon : Lexeme
  behind : List Lexeme
  read : beforeValue front member context body = .ok ((), sign :: (taken ++ semicolon :: behind))
  announces : Announces sign member
  plain : ∀ lexeme ∈ taken, lexeme.kind ≠ .semicolon
  ends : semicolon.kind = .semicolon
  filled : taken ≠ []
  value_eq : value = Lexeme.sourceText taken

/-- The value of a member whose lexemes are read behind its keyword, quoted from the text. -/
structure QuotedValue (text : String) (context : Context) (lexemes : List Lexeme)
    (member : Member) (value : String) where
  front : Preamble
  body : List Lexeme
  read : preamble context lexemes = .ok (front, body)
  place : ValueAt context front body member value
  quotes : Quotes text place.taken value

/-- What is read of a member from its value on. -/
theorem valueClause_eq_ok {α : Type} {found : Bool} {next : Option String → Reader α} {result : α}
    (read : (if found = true then (some <$> rawValue) >>= next else pure none >>= next) context
      lexemes = .ok (result, rest)) :
    ∃ value behind, next value context behind = .ok (result, rest) ∧
      ∀ text ∈ value, found = true ∧ rawValue context lexemes = .ok (text, behind) := by
  cases found with
  | false => exact ⟨none, lexemes, read, by simp⟩
  | true =>
      obtain ⟨value, behind, readValue, readNext⟩ := bind_eq_ok read
      obtain ⟨text, behind', readText, same⟩ := bind_eq_ok readValue
      obtain ⟨rfl, rfl⟩ := pure_eq_ok same
      refine ⟨_, _, readNext, fun text' member => ?_⟩
      obtain rfl := Option.some.inj member
      exact ⟨rfl, readText⟩

theorem valueAt_of_rawValue {front : Preamble} {body : List Lexeme} {member : Member}
    {sign : Lexeme} {value : String}
    (read : beforeValue front member context body = .ok ((), sign :: lexemes))
    (announces : Announces sign member)
    (readValue : rawValue context lexemes = .ok (value, rest)) :
    Nonempty (ValueAt context front body member value) := by
  obtain ⟨taken, semicolon, behind, rfl, filled, _, plain, rfl, ends, rfl⟩ :=
    rawValue_eq_ok readValue
  exact ⟨⟨sign, taken, semicolon, behind, read, announces, plain, ends, filled, rfl⟩⟩

/-- A method that is read has the modifiers of its front and the value behind its sign. -/
theorem methodBody_eq_ok {front : Preamble} {item : Method}
    (read : methodBody front context lexemes = .ok (item, rest)) :
    item.modifiers = front.modifiers ∧ ∀ value ∈ item.defaultValue,
      Nonempty (ValueAt context front lexemes (.method item) value) := by
  obtain ⟨params, afterParams, readParams, read⟩ := bind_eq_ok read
  obtain ⟨type, afterType, readType, read⟩ := bind_eq_ok read
  obtain ⟨name, afterName, readName, read⟩ := bind_eq_ok read
  obtain ⟨parameters, afterParameters, readParameters, read⟩ := bind_eq_ok read
  obtain ⟨throws, afterThrows, readThrows, read⟩ := bind_eq_ok read
  obtain ⟨found, afterSign, readSign, read⟩ := bind_eq_ok read
  obtain ⟨value, afterValue, readEnd, isValue⟩ := valueClause_eq_ok read
  obtain ⟨_, _, _, read⟩ := bind_eq_ok readEnd
  obtain ⟨rfl, rfl⟩ := pure_eq_ok read
  refine ⟨rfl, fun text member => ?_⟩
  obtain ⟨rfl, readValue⟩ := isValue text member
  obtain ⟨-, sign, rfl, isSign⟩ := (skipWord_eq_ok readSign).resolve_right (by simp)
  refine valueAt_of_rawValue ?_ isSign readValue
  rw [beforeValue, bind_ok readParams, bind_ok readType, bind_ok readName, bind_ok readParameters,
    bind_ok readThrows]
  rfl

/-- A field that is read has the modifiers of its front and the value behind its sign. -/
theorem fieldBody_eq_ok {isEnumConstant : Bool} {front : Preamble} {item : Field}
    (read : fieldBody isEnumConstant front context lexemes = .ok (item, rest)) :
    item.modifiers = front.modifiers ∧ ∀ value ∈ item.value,
      Nonempty (ValueAt context front lexemes (.field item) value) := by
  obtain ⟨type, afterType, readType, read⟩ := bind_eq_ok read
  obtain ⟨name, afterName, readName, read⟩ := bind_eq_ok read
  obtain ⟨found, afterSign, readSign, read⟩ := bind_eq_ok read
  obtain ⟨value, afterValue, readEnd, isValue⟩ := valueClause_eq_ok read
  obtain ⟨_, _, _, read⟩ := bind_eq_ok readEnd
  obtain ⟨rfl, rfl⟩ := pure_eq_ok read
  refine ⟨rfl, fun text member => ?_⟩
  obtain ⟨rfl, readValue⟩ := isValue text member
  obtain ⟨-, sign, rfl, isSign⟩ := (skip_eq_ok readSign).resolve_right (by simp)
  refine valueAt_of_rawValue ?_ isSign readValue
  rw [beforeValue, bind_ok readType, bind_ok readName]
  rfl

theorem constructorBody_eq_ok {front : Preamble} {item : Constructor}
    (read : constructorBody front context lexemes = .ok (item, rest)) :
    item.modifiers = front.modifiers := by
  obtain ⟨params, _, _, read⟩ := bind_eq_ok read
  obtain ⟨name, _, _, read⟩ := bind_eq_ok read
  obtain ⟨parameters, _, _, read⟩ := bind_eq_ok read
  obtain ⟨throws, _, _, read⟩ := bind_eq_ok read
  obtain ⟨_, _, _, read⟩ := bind_eq_ok read
  obtain ⟨rfl, rfl⟩ := pure_eq_ok read
  rfl

theorem memberBody_eq_ok {keyword : String} {line : Nat} {front : Preamble} {found : Located Member}
    (read : memberBody keyword line front context lexemes = .ok (found, rest)) :
    found.item.modifiers = front.modifiers ∧ ∀ value ∈ found.item.value?,
      Nonempty (ValueAt context front lexemes found.item value) := by
  unfold memberBody at read
  split at read
  · obtain ⟨item, _, readItem, read⟩ := bind_eq_ok read
    obtain ⟨rfl, rfl⟩ := pure_eq_ok read
    exact ⟨constructorBody_eq_ok readItem, by simp [Member.value?]⟩
  · obtain ⟨item, _, readItem, read⟩ := bind_eq_ok read
    obtain ⟨rfl, rfl⟩ := pure_eq_ok read
    exact methodBody_eq_ok readItem
  · obtain ⟨item, _, readItem, read⟩ := bind_eq_ok read
    obtain ⟨rfl, rfl⟩ := pure_eq_ok read
    exact fieldBody_eq_ok readItem
  · obtain ⟨item, _, readItem, read⟩ := bind_eq_ok read
    obtain ⟨rfl, rfl⟩ := pure_eq_ok read
    exact fieldBody_eq_ok readItem
  · cases read

/-! ## Whole texts -/

/-- A semicolon or a parenthesis that is no lexeme of its own stands in a literal. -/
def MarksAlone (lexemes : List Lexeme) : Prop :=
  ∀ lexeme ∈ lexemes, ∀ mark ∈ textMarks, mark ∈ lexeme.text.toList →
    (lexeme.text = String.ofList [mark] ∧ punctuation? mark = some lexeme.kind) ∨
      lexeme.kind = .stringLiteral ∨ lexeme.kind = .charLiteral

structure QuotedMember (text : String) (context : Context) (lexemes : List Lexeme)
    (member : Member) where
  keyword : Lexeme
  later : List Lexeme
  whole : lexemes = keyword :: later
  front : QuotedFront text context later member.modifiers.annotations
  values : ∀ value ∈ member.value?, Nonempty (QuotedValue text context later member value)

theorem quotedMember_of_member {text : String} {whole : List Lexeme}
    (tokenized : tokenize text = .ok whole) (suffix : lexemes <:+ whole) {found : Located Member}
    (read : member context lexemes = .ok (found, rest)) :
    Nonempty (QuotedMember text context lexemes found.item) := by
  obtain ⟨keyword, later, front, body, rfl, _, readFront, readBody, _⟩ :=
    member_eq_ok_iff.mp read
  obtain ⟨modifiers, values⟩ := memberBody_eq_ok readBody
  have inText : later <:+ whole := (List.suffix_cons _ _).trans suffix
  obtain ⟨quoted⟩ := quotedFront_of_preamble tokenized inText readFront
  refine ⟨⟨keyword, later, rfl, modifiers ▸ quoted, fun value stored => ?_⟩⟩
  obtain ⟨place⟩ := values value stored
  have inBody := (careful_beforeValue _ _ _).leaves _ _ _ place.read
  have inFront := (careful_preamble _).leaves _ _ _ readFront
  have inValue : place.taken ++ place.semicolon :: place.behind <:+ whole :=
    (((List.suffix_cons _ _).trans inBody).trans inFront).trans inText
  have quotes := quotes_of_suffix tokenized inValue place.filled
  rw [← place.value_eq] at quotes
  exact ⟨⟨front, body, readFront, place, quotes⟩⟩

variable {source text : String} {requested : Option NullMode} {api : Api}

/-- Every annotation and every value of a text that is read is quoted from the text, where the
declaration is read that it belongs to. -/
theorem read_verbatims (whole : read source text requested = .ok api) :
    ∃ lexemes, LexedAs api source text requested lexemes ∧ MarksAlone lexemes ∧
      ∀ package ∈ api.packages.values, ∀ cls ∈ package.item.classes.values,
        ∃ place : ClassPlace (contextOf api.nullMode lexemes) lexemes package.item.name cls,
          Nonempty (QuotedFront text (contextOf api.nullMode lexemes) place.start
            cls.item.modifiers.annotations) ∧
          ∀ found ∈ cls.item.members.values,
            ∃ inner : MemberPlace package.item.name (contextOf api.nullMode lexemes) place.start
                cls place.behind found,
              Nonempty (QuotedMember text (contextOf api.nullMode lexemes) inner.start
                found.item) := by
  obtain ⟨lexemes, lexed⟩ := read_eq_ok_iff.mp whole
  refine ⟨lexemes, lexed, mark_of_mem lexed.tokenized, fun package stored cls inPackage => ?_⟩
  obtain ⟨place, _⟩ := classPlace_of_read whole lexed package stored cls inPackage
  obtain ⟨head, body, members, close, classRead⟩ := classDecl_eq_ok_iff.mp place.read
  obtain ⟨map, _, rfl⟩ := classRead.stored
  obtain ⟨line, front, behind, _, readFront, readBody⟩ := classHead_eq_ok_iff.mp classRead.readHead
  obtain rfl := (classHeadBody_eq_ok readBody).1
  have inText := place.start_suffix
  refine ⟨place, quotedFront_of_preamble lexed.tokenized inText readFront, fun found inClass => ?_⟩
  obtain ⟨inner⟩ := memberPlace_of_classDecl place.read found inClass
  exact ⟨inner, quotedMember_of_member lexed.tokenized (inner.start_suffix.trans inText) inner.read⟩

def literalText : String :=
  "package p \x7b\n  class C \x7b\n" ++
    "    field @A(\")\", ';' // )\n      ) public static String x =\n" ++
    "      \"a;\" // ;\n      + \"b\";\n" ++
    "    method @B.C int f() default ')' ;\n  \x7d\n\x7d\n"

theorem read_verbatims_literalText :
    ∃ api, read "api.txt" literalText none = .ok api ∧
      api.verbatims = ["@A(\")\", ';' // )\n      )", "\"a;\" // ;\n      + \"b\"", "@B.C", "')'"] ∧
      ∃ lexemes, LexedAs api "api.txt" literalText none lexemes ∧ MarksAlone lexemes ∧
        ∀ package ∈ api.packages.values, ∀ cls ∈ package.item.classes.values,
          ∃ place : ClassPlace (contextOf api.nullMode lexemes) lexemes package.item.name cls,
            Nonempty (QuotedFront literalText (contextOf api.nullMode lexemes) place.start
              cls.item.modifiers.annotations) ∧
            ∀ found ∈ cls.item.members.values,
              ∃ inner : MemberPlace package.item.name (contextOf api.nullMode lexemes) place.start
                  cls place.behind found,
                Nonempty (QuotedMember literalText (contextOf api.nullMode lexemes) inner.start
                  found.item) := by
  have texts : (read "api.txt" literalText none).toOption.map Api.verbatims =
      some ["@A(\")\", ';' // )\n      )", "\"a;\" // ;\n      + \"b\"", "@B.C", "')'"] := by
    decide +kernel
  obtain ⟨_, api, _, found, verbatims⟩ := exists_of_read texts
  exact ⟨api, found, verbatims, read_verbatims found⟩

end ApiCompat.Signature
