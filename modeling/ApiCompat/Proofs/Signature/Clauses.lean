import ApiCompat.Proofs.Signature.PreambleTakes

/-!
# Reading clauses

The clauses of declarations are read whatever words stand for the types in
them: each lemma says how a clause is read if its parts are.
-/

set_option autoImplicit false

namespace ApiCompat.Signature

open Reader

variable {mode : NullMode} {good : Prop} {back : List Word} {τ : Type}

/-! ## What may follow -/

structure EndsItem (back : List Word) : Prop where
  type : EndsType back
  noName : NotNext .identifier back
  noBound : NotNext .ampersand back

theorem EndsItem.endsWildcard (ends : EndsItem back) : EndsWildcard back :=
  ⟨fun word next isWord => ends.noName word next isWord.1,
    fun word next isWord => ends.noName word next isWord.1⟩

theorem endsItem_cons {word : Word} (type : endsTypeKind word.kind = true)
    (noName : word.kind ≠ .identifier) (noBound : word.kind ≠ .ampersand) (later : List Word) :
    EndsItem (word :: later) :=
  ⟨(endsType_cons word later).mpr type, (notNext_cons _ word later).mpr noName,
    (notNext_cons _ word later).mpr noBound⟩

theorem endsItem_enclosed (word : Word) (later : List Word)
    (which : word = .comma ∨ word = .greater) : EndsItem (word :: later) := by
  rcases which with rfl | rfl
  · exact endsItem_cons rfl (by decide) (by decide) later
  · exact endsItem_cons rfl (by decide) (by decide) later

structure EndsClause (keyword : String) (separator : Word) (back : List Word) : Prop where
  type : EndsType back
  wildcard : EndsWildcard back
  noSeparator : NotNext separator.kind back
  noKeyword : NotNextWord keyword back

theorem EndsItem.endsClause (ends : EndsItem back) (keyword : String) :
    EndsClause keyword .ampersand back :=
  ⟨ends.type, ends.endsWildcard, ends.noBound,
    fun word next isWord => ends.noName word next isWord.1⟩

theorem endsClause_cons {keyword : String} {separator word : Word}
    (type : endsTypeKind word.kind = true)
    (noWord : word.kind ≠ .identifier ∨
      word.text ≠ "extends" ∧ word.text ≠ "super" ∧ word.text ≠ keyword)
    (noSeparator : word.kind ≠ separator.kind) (later : List Word) :
    EndsClause keyword separator (word :: later) := by
  have notWord : ∀ text, text = "extends" ∨ text = "super" ∨ text = keyword →
      NotNextWord text (word :: later) := by
    rintro text which
    rw [notNextWord_cons]
    rintro ⟨kind, rfl⟩
    rcases noWord with other | ⟨noExtends, noSuper, noKeyword⟩
    · exact other kind
    · rcases which with same | same | same
      · exact noExtends same
      · exact noSuper same
      · exact noKeyword same
  exact ⟨(endsType_cons word later).mpr type,
    ⟨notWord _ (.inl rfl), notWord _ (.inr (.inl rfl))⟩, notNext_of_ne noSeparator,
    notWord _ (.inr (.inr rfl))⟩

/-! ## Lists of types -/

/-- A clause of types behind a keyword, or nothing where there are none. -/
def listedWords (keyword : String) (separator : Word) : List (List Word) → List Word
  | [] => []
  | first :: rest => .ident keyword :: joinWords [separator] (first :: rest)

def listed (keyword : String) (separator : TokenKind) : Reader (List TypeRef) := do
  if ← skipWord? keyword then separated separator plainType else return []

theorem typeParam_eq : typeParam = (do
    let name ← identifier .typeParameter
    let bounds ← listed "extends" .ampersand
    return { name := name.text, bounds }) := by
  refine congrArg (fun next => identifier .typeParameter >>= next) (funext fun name => ?_)
  rw [listed, bind_assoc]
  refine congrArg (fun next => skipWord? "extends" >>= next) (funext fun found => ?_)
  cases found <;> rfl

/-- Each of the types is read as what it means, where nothing continues it. -/
def EachTakes (mode : NullMode) (good : Prop) (words : τ → List Word) (means : τ → TypeRef)
    (types : List τ) : Prop :=
  ∀ type ∈ types, ∀ back, EndsType back → EndsWildcard back →
    Takes mode good plainType (words type) back (· = means type)

variable {words : τ → List Word} {means : τ → TypeRef} {types : List τ}

theorem takes_listed {keyword : String} {separator : Word}
    (separates : endsTypeKind separator.kind = true ∧ separator.kind ≠ .identifier)
    (each : EachTakes mode good words means types) (ends : EndsClause keyword separator back) :
    Takes mode good (listed keyword separator.kind)
      (listedWords keyword separator (types.map words)) back (· = types.map means) := by
  cases types with
  | nil =>
      refine Takes.peek (takes_skipWord_not ends.noKeyword) fun found none => ?_
      subst none
      exact takes_pure rfl
  | cons first types =>
      refine (takes_skipWord keyword).bind_word fun found taken => ?_
      subst taken
      refine takes_separated_map separator (fun later => EndsType later ∧ EndsWildcard later) means
        ⟨ends.type, ends.wildcard⟩ ends.noSeparator ?_ (List.cons_ne_nil first types) ?_
      · intro later
        simp [EndsWildcard, separates.1, separates.2]
      · intro type member later ends
        exact each type member later ends.1 ends.2

theorem takes_boundedParam (name : String) (each : EachTakes mode good words means types)
    (ends : EndsItem back) :
    Takes mode good typeParam
      (.ident name :: listedWords "extends" .ampersand (types.map words)) back
      (· = { name, bounds := types.map means }) := by
  rw [typeParam_eq]
  refine (takes_identifier _ name).bind_word fun found text => ?_
  refine (takes_listed ⟨rfl, by decide⟩ each (ends.endsClause "extends")).last fun found same => ?_
  subst same
  subst text
  exact takes_pure rfl

theorem typeParams_eq : typeParams = enclosed typeParam := rfl

theorem takes_typeParams_none (stop : NotNext .less back) :
    Takes mode good typeParams [] back (· = []) := takes_enclosed_none stop

/-! ## Parameters -/

/-- A type is read as a parameter, with the name that may follow it. -/
theorem takes_namedType {words : List Word} {type : TypeRef} {name : Option String}
    (takes : Takes mode good plainType words ((name.map Word.ident).toList ++ back) (· = type))
    (noName : name = none → NotNext .identifier back) :
    Takes mode good Signature.parameter (words ++ (name.map Word.ident).toList) back
      (· = { name, type }) := by
  refine takes.bind fun found same => ?_
  subst same
  cases name with
  | none =>
      refine Takes.last (takes_takeIf_not ?_) fun found none => ?_
      · intro word next lexeme matched
        have other := noName rfl word next
        simp [matched.1, other]
      · subst none
        exact takes_pure rfl
  | some name =>
      refine Takes.last (takes_takeIf ?_) fun found holds => ?_
      · intro lexeme matched
        simp [matched.1, Word.ident]
      · obtain ⟨lexeme, rfl, matched⟩ := holds
        apply takes_pure
        have text : lexeme.text = name := matched.2.1
        simp [text]

theorem takes_parametersOf {words : τ → List Word} (means : τ → Parameter) {items : List τ}
    (starts : ∀ item ∈ items, ∀ back, NotNext .rightParen (words item ++ back))
    (each : ∀ item ∈ items, ∀ back, EndsItem back →
      Takes mode good Signature.parameter (words item) back (· = means item)) :
    Takes mode good Signature.parameters
      (.leftParen :: (joinWords [.comma] (items.map words) ++ [.rightParen])) back
      (· = items.map means) := by
  refine (takes_expect rfl).bind_word fun _ _ => ?_
  cases items with
  | nil =>
      refine (takes_skip rfl).last fun found closed => ?_
      subst closed
      exact takes_pure rfl
  | cons item items =>
      refine Takes.peek (takes_skip_not ?_) fun found none => ?_
      · simp only [List.map_cons, joinWords, List.append_assoc]
        exact starts item List.mem_cons_self _
      · subst none
        refine (takes_separated_map .comma EndsItem means
          (endsItem_cons rfl (by decide) (by decide) _) (notNext_of_ne (by decide))
          (endsItem_cons rfl (by decide) (by decide)) (List.cons_ne_nil item items)
          each).bind fun found same => ?_
        subst same
        refine (takes_expect rfl).last fun _ _ => ?_
        exact takes_pure rfl

/-! ## Values -/

def signedWords (sign : Word) (value : Option (List Word)) : List Word :=
  value.elim [] (sign :: ·)

/-- What is read of a member from its value on. -/
theorem takes_valueClause {α : Type} {sign : Reader Bool} {word : Word} {value : Option (List Word)}
    {next : Option String → Reader α} {post : α → Prop} (holds : Option String → Prop)
    (written : ∀ words ∈ value, Takes mode good rawValue words (.semicolon :: back)
      fun text => holds (some text))
    (omitted : value = none → holds none)
    (present : ∀ back, Takes mode good sign [word] back (· = true))
    (absent : Takes mode good sign [] (.semicolon :: back) (· = false))
    (rest : ∀ value, holds value → Takes mode good (next value) [.semicolon] back post) :
    Takes mode good
      (do
        let value ← if ← sign then some <$> rawValue else pure none
        next value)
      (signedWords word value ++ [.semicolon]) back post := by
  cases value with
  | none =>
      refine Takes.peek absent fun found none => ?_
      subst none
      exact rest none (omitted rfl)
  | some words =>
      refine (present _).bind_word fun found taken => ?_
      subst taken
      have whole : Takes mode good (some <$> rawValue) words ([.semicolon] ++ back) holds :=
        (written words rfl).last fun found kept => takes_pure kept
      exact whole.bind rest

/-- A member is read as a field behind either of two keywords. -/
theorem takes_fieldMember {isEnumConstant : Bool} {words : List Word} (post : Member → Prop)
    (takes : Takes mode good (Signature.field isEnumConstant) words back
      fun found => post (.field found)) :
    Takes mode good Signature.member
      (.ident (if isEnumConstant then "enum_constant" else "field") :: words) back
      fun found => post found.item := by
  cases isEnumConstant with
  | false =>
      refine (takes_identifier _ "field").bind_word fun keyword text => ?_
      simp only [text]
      exact takes.last fun found holds => takes_pure holds
  | true =>
      refine (takes_identifier _ "enum_constant").bind_word fun keyword text => ?_
      simp only [text]
      exact takes.last fun found holds => takes_pure holds

end ApiCompat.Signature
