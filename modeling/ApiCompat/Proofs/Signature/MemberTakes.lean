import ApiCompat.Proofs.Signature.Clauses

/-!
# Reading written members

Each member is read back from its words, whatever follows its semicolon.
-/

set_option autoImplicit false

namespace ApiCompat.Signature

open Reader

variable {mode : NullMode} {good : Prop} {back : List Word} {allowed : String → Prop}

/-! ## Parts of members -/

theorem takes_eachPlain (idents : Identifiers allowed) {types : List TypeRef}
    (formed : ∀ type ∈ types, type.Formed allowed) :
    EachTakes mode good (typeWords mode) id types :=
  fun type member _ ends wildcard =>
    takes_plainType (formed type member) idents ends fun _ => wildcard

theorem typesWords_eq (mode : NullMode) (keyword : String) (types : List TypeRef) :
    typesWords mode keyword types = listedWords keyword .comma (types.map (typeWords mode)) := by
  cases types <;> rfl

theorem takes_typeParam (idents : Identifiers allowed) {param : TypeParam}
    (formed : param.Formed allowed) (ends : EndsItem back) :
    Takes mode good typeParam (typeParamWords mode param) back (· = param) := by
  obtain ⟨name, bounds⟩ := param
  have words : typeParamWords mode ⟨name, bounds⟩ =
      .ident name :: listedWords "extends" .ampersand (bounds.map (typeWords mode)) := by
    cases bounds <;> rfl
  have takes : Takes mode good typeParam _ back (· = { name, bounds := bounds.map id }) :=
    takes_boundedParam name (takes_eachPlain idents formed.bounds) ends
  rwa [← words, List.map_id] at takes

theorem typeParamsWords_eq (mode : NullMode) (params : List TypeParam) :
    typeParamsWords mode params = enclosedWords (params.map (typeParamWords mode)) := by
  cases params <;> rfl

theorem takes_typeParams (idents : Identifiers allowed) {params : List TypeParam}
    (formed : ∀ param ∈ params, param.Formed allowed) (stop : NotNext .less back) :
    Takes mode good typeParams (typeParamsWords mode params) back (· = params) := by
  have whole : Takes mode good typeParams (enclosedWords (params.map (typeParamWords mode))) back
      (· = params.map id) :=
    takes_enclosed EndsItem id stop endsItem_enclosed fun param member later ends =>
      takes_typeParam idents (formed param member) ends
  rwa [List.map_id, ← typeParamsWords_eq] at whole

theorem takes_parameter (idents : Identifiers allowed) {parameter : Parameter}
    (formed : parameter.Formed allowed) (clear : parameter.Clear) (ends : EndsItem back) :
    Takes mode good Signature.parameter (parameterWords mode parameter) back (· = parameter) := by
  obtain ⟨name, type⟩ := parameter
  refine takes_namedType ?_ fun _ => ends.noName
  cases name with
  | none => exact takes_plainType formed.type idents ends.type fun _ => ends.endsWildcard
  | some name =>
      have closed : type.endsOpen = true → EndsWildcard (.ident name :: back) := by
        intro isOpen
        obtain ⟨notExtends, notSuper⟩ := clear name rfl isOpen
        simp [EndsWildcard, Word.ident, notExtends, notSuper]
      exact takes_plainType formed.type idents (by simp [Word.ident, endsTypeKind]) closed

/-- A written type begins with an annotation, a word or the sign of a wildcard. -/
theorem notNext_typeWords (idents : Identifiers allowed) {kind : TokenKind} {type : TypeRef}
    (formed : type.Formed allowed) (notSign : kind ≠ .atSign) (notQuestion : kind ≠ .question)
    (notIdent : kind ≠ .identifier) : NotNext kind (typeWords mode type ++ back) := by
  have own : NotNext kind (ownTypeWords mode type ++ back) :=
    notNext_ownTypeWords mode type notQuestion notIdent
  rw [typeWords_eq mode formed idents, List.append_assoc]
  exact notNext_beforeWords notSign own

theorem takes_parameters (idents : Identifiers allowed) {parameters : List Parameter}
    (formed : ∀ parameter ∈ parameters, parameter.Formed allowed)
    (clear : ∀ parameter ∈ parameters, parameter.Clear) :
    Takes mode good Signature.parameters (parametersWords mode parameters) back
      (· = parameters) := by
  have takes : Takes mode good Signature.parameters (parametersWords mode parameters) back
      (· = parameters.map id) := by
    refine takes_parametersOf id ?_ ?_
    · intro parameter member back
      rw [parameterWords, List.append_assoc]
      exact notNext_typeWords idents (formed parameter member).type (by decide) (by decide)
        (by decide)
    · intro parameter member later ends
      exact takes_parameter idents (formed parameter member) (clear parameter member) ends
  rwa [List.map_id] at takes

theorem takes_throwsClause (idents : Identifiers allowed) {types : List TypeRef}
    (formed : ∀ type ∈ types, type.Formed allowed) (ends : EndsClause "throws" .comma back) :
    Takes mode good throwsClause (typesWords mode "throws" types) back (· = types) := by
  have takes : Takes mode good throwsClause _ back (· = types.map id) :=
    takes_listed ⟨rfl, by decide⟩ (takes_eachPlain idents formed) ends
  rwa [List.map_id, ← typesWords_eq] at takes

/-! ## Members -/

theorem takes_constructor (idents : Identifiers allowed) {item : Constructor}
    (formed : item.Formed allowed) (clear : item.Clear) :
    Takes mode good Signature.constructor (constructorWords mode item) back (· = item) := by
  obtain ⟨name, modifiers, typeParams, parameters, throws⟩ := item
  obtain ⟨later, shape⟩ := nameWords_cons name
  refine (takes_preamble formed.modifiers none ?_).bind fun front same => ?_
  · cases typeParams with
    | nil =>
        have noModifier := clear.name rfl
        rw [shape]
        exact ends_ident noModifier _
    | cons param params => exact ends_less _
  subst same
  refine (takes_typeParams idents formed.typeParams ?_).bind fun found same => ?_
  · simp [shape, Word.ident]
  · subst same
    refine (takes_qualifiedName _ name ?_).bind fun found same => ?_
    · simp [parametersWords, Word.leftParen, Word.punctuation]
    · subst same
      refine (takes_parameters idents formed.parameters clear.parameters).bind fun found same => ?_
      subst same
      have ends : EndsClause "throws" .comma ([.semicolon] ++ back) :=
        endsClause_cons rfl (.inl (by decide)) (by decide) _
      refine (takes_throwsClause idents formed.throws ends).bind fun found same => ?_
      subst same
      refine (takes_expect rfl).last fun _ _ => ?_
      exact takes_pure rfl

theorem valueClauseWords_eq (sign : Word) (value : Option String) :
    valueClauseWords sign value = signedWords sign (value.map valueWords) := by
  cases value <;> rfl

/-- What is read of a member from its captured value on. -/
theorem takes_capturedClause {α : Type} {sign : Reader Bool} {word : Word} {value : Option String}
    {next : Option String → Reader α} {post : α → Prop}
    (captured : ∀ text ∈ value, CapturedValue text)
    (present : ∀ back, Takes mode good sign [word] back (· = true))
    (absent : Takes mode good sign [] (.semicolon :: back) (· = false))
    (rest : Takes mode good (next value) [.semicolon] back post) :
    Takes mode good
      (do
        let value ← if ← sign then some <$> rawValue else pure none
        next value)
      (valueClauseWords word value ++ [.semicolon]) back post := by
  rw [valueClauseWords_eq]
  refine takes_valueClause (· = value) ?_ ?_ present absent ?_
  · intro words written
    obtain ⟨text, rfl, rfl⟩ := Option.map_eq_some_iff.mp written
    exact (captured text rfl).takes.mono fun found same => congrArg some same
  · intro omitted
    exact (Option.map_eq_none_iff.mp omitted).symm
  · rintro _ rfl
    exact rest

theorem endsWildcard_name {type : TypeRef} {name : String} (clear : ClearName type name)
    (later : List Word) : type.endsOpen = true → EndsWildcard (.ident name :: later) := by
  intro isOpen
  obtain ⟨notExtends, notSuper⟩ := clear isOpen
  simp [EndsWildcard, Word.ident, notExtends, notSuper]

/-- What is read of a method from its parameters on. -/
theorem takes_callClauses {α : Type} (idents : Identifiers allowed) {item : Method}
    (formed : item.Formed allowed) (clear : item.Clear)
    {next : List Parameter → List TypeRef → Option String → Reader α} {post : α → Prop}
    (rest : Takes mode good (next item.parameters item.throws item.defaultValue) [.semicolon] back
      post) :
    Takes mode good
      (do
        let parameters ← parameters
        let throws ← throwsClause
        let defaultValue ← if ← skipWord? "default" then some <$> rawValue else pure none
        next parameters throws defaultValue)
      (parametersWords mode item.parameters ++ (typesWords mode "throws" item.throws ++
        (valueClauseWords (.ident "default") item.defaultValue ++ [.semicolon]))) back post := by
  obtain ⟨name, modifiers, typeParams, returnType, parameters, throws, defaultValue⟩ := item
  refine (takes_parameters idents formed.parameters clear.parameters).bind fun found same => ?_
  subst same
  have behindThrows : EndsClause "throws" .comma
      (valueClauseWords (.ident "default") defaultValue ++ [.semicolon] ++ back) := by
    cases defaultValue with
    | none => exact endsClause_cons rfl (.inl (by decide)) (by decide) _
    | some value => exact endsClause_cons rfl (.inr (by decide)) (by decide) _
  refine (takes_throwsClause idents formed.throws behindThrows).bind fun found same => ?_
  subst same
  refine takes_capturedClause formed.defaultValue (fun _ => takes_skipWord "default")
    (takes_skipWord_not ?_) rest
  simp [Word.semicolon, Word.punctuation]

theorem takes_method (idents : Identifiers allowed) {item : Method}
    (formed : item.Formed allowed) (clear : item.Clear) (rereadable : item.Rereadable) :
    Takes mode good Signature.method (methodWords mode item) back (· = item) := by
  have callClauses := @takes_callClauses mode good back allowed Method idents item formed clear
  obtain ⟨name, modifiers, typeParams, returnType, parameters, throws, defaultValue⟩ := item
  refine (takes_preamble formed.modifiers (some returnType) ?_).bind fun front same => ?_
  · cases typeParams with
    | nil =>
        have noModifier := rereadable rfl
        simp only [typeParamsWords, List.isEmpty_nil, if_true, List.nil_append, List.append_assoc]
        exact ends_ownTypeWords noModifier _
    | cons param params => exact ends_less _
  subst same
  refine (takes_typeParams idents formed.typeParams ?_).bind fun found same => ?_
  · rw [List.append_assoc]
    exact notNext_ownTypeWords mode returnType (by decide) (by decide)
  · subst same
    refine (takes_ownType formed.returnType idents ?_ ?_).bind fun found same => ?_
    · simp [Word.ident, endsTypeKind]
    · exact endsWildcard_name clear.name _
    · subst same
      refine (takes_identifier _ name).bind_word fun found text => ?_
      subst text
      apply callClauses
      refine (takes_expect rfl).last fun _ _ => ?_
      exact takes_pure rfl

theorem takes_field (idents : Identifiers allowed) {item : Field}
    (formed : item.Formed allowed) (clear : item.Clear) (rereadable : item.Rereadable) :
    Takes mode good (Signature.field item.isEnumConstant) (fieldWords mode item) back
      (· = item) := by
  obtain ⟨name, modifiers, type, value, isEnumConstant⟩ := item
  refine (takes_preamble formed.modifiers (some type) ?_).bind fun front same => ?_
  · rw [List.append_assoc]
    exact ends_ownTypeWords rereadable _
  subst same
  refine (takes_ownType formed.type idents ?_ ?_).bind fun found same => ?_
  · simp [Word.ident, endsTypeKind]
  · exact endsWildcard_name clear _
  · subst same
    refine (takes_identifier _ name).bind_word fun found text => ?_
    subst text
    refine takes_capturedClause formed.value (fun _ => takes_skip rfl) (takes_skip_not ?_) ?_
    · simp [Word.semicolon, Word.punctuation]
    · refine (takes_expect rfl).last fun _ _ => ?_
      exact takes_pure rfl

theorem takes_member (idents : Identifiers allowed) {member : Member}
    (formed : member.Formed allowed) (clear : member.Clear) (rereadable : member.Rereadable) :
    Takes mode good Signature.member (memberWords mode member) back
      fun found => found.item = member := by
  cases member with
  | constructor item =>
      refine (takes_identifier _ "ctor").bind_word fun keyword text => ?_
      simp only [text]
      refine (takes_constructor idents formed clear).last fun found same => ?_
      subst same
      exact takes_pure rfl
  | method item =>
      refine (takes_identifier _ "method").bind_word fun keyword text => ?_
      simp only [text]
      refine (takes_method idents formed clear rereadable).last fun found same => ?_
      subst same
      exact takes_pure rfl
  | field item =>
      refine takes_fieldMember (· = .field item)
        ((takes_field idents formed clear rereadable).mono ?_)
      rintro found rfl
      rfl

end ApiCompat.Signature
