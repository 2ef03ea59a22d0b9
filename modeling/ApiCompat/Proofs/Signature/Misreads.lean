import ApiCompat.Proofs.Signature.Remnants

/-!
# Members that are not read back

The first word of an own type that is a modifier word is read as a modifier.
What is left of the type then fails to be read, or is read as a wildcard.
-/

set_option autoImplicit false

namespace ApiCompat.Signature

open Reader

variable {mode : NullMode} {back : List Word} {allowed : String → Prop}

/-! ## The preamble that takes too much -/

/-- Modifier words behind the written ones are taken as well. -/
theorem takes_preamble_more {good : Prop} {modifiers : Modifiers} (formed : modifiers.Formed)
    (ownType : Option TypeRef) {more : List String}
    (known : ∀ word ∈ more, ModifierWord.ofWord? word ≠ none) (ends : EndsPreamble back)
    (behind : EndsAnnotation (more.map Word.ident ++ back)) :
    Takes mode good preamble (preambleWords mode modifiers ownType ++ more.map Word.ident) back
      fun front => front.nullness = ownDeclared mode ownType := by
  have allKnown : ∀ word ∈ modifiers.words ++ more, ModifierWord.ofWord? word ≠ none := by
    intro word member
    rcases List.mem_append.mp member with written | later
    · exact modifiers.ofWord?_words word written
    · exact known word later
  have behindAll : EndsAnnotation ((modifiers.words ++ more).map Word.ident ++ back) := by
    rw [List.map_append, List.append_assoc]
    exact behind.idents
  have whole := @takes_preamble_words mode good back _ formed ownType _ allKnown ends behindAll
  rw [List.map_append] at whole
  simp only [preambleWords, List.append_assoc]
  apply whole.mono
  rintro front rfl
  rfl

theorem endsPreamble_noType (stop : NoType back) : EndsPreamble back := by
  intro word next
  have kind := stop word next
  refine ⟨fun sign => ?_, fun ident => ?_⟩
  · rw [sign] at kind
    cases kind
  · rw [ident] at kind
    cases kind

/-- A wildcard does not begin with a modifier word. -/
theorem named_of_beginsWithModifier {type : TypeRef} (begins : type.beginsWithModifier = true) :
    type.name ≠ "?" := by
  intro wildcard
  rw [TypeRef.beginsWithModifier, wildcard] at begins
  exact absurd begins (by decide)

/-- Behind the first word of a type stands no word for the preamble, if the rest of the type is
there or the name is none. -/
theorem endsPreamble_behindWord {type : TypeRef} {name : String} (later : List Word)
    (swallowed : ¬(argWords mode type.args ++ suffixWords mode type = [] ∧
      ModifierWord.ofWord? name ≠ none)) :
    EndsPreamble (argWords mode type.args ++ (suffixWords mode type ++ .ident name :: later)) := by
  cases args : type.args with
  | cons first others => exact endsPreamble_punctuation (by decide) (by decide) _
  | nil =>
      rcases suffixWords_cases mode type with
        ⟨nothing, _⟩ | question | ⟨word, more, marks, noType, _⟩
      · have notKnown : ModifierWord.ofWord? name = none := by
          by_contra nameKnown
          exact swallowed ⟨by rw [args, nothing]; rfl, nameKnown⟩
        rw [nothing]
        exact (ends_ident notKnown _).1
      · rw [question]
        exact endsPreamble_punctuation (by decide) (by decide) _
      · rw [marks]
        exact endsPreamble_noType ((noType_cons _ _).mpr noType)

/-- The preamble takes the first word of the type, and the name behind it if it
is a modifier word too. -/
theorem takes_greedyPreamble {α : Type} {modifiers : Modifiers} (formed : modifiers.Formed)
    {type : TypeRef} (formedType : type.Formed allowed) (begins : type.beginsWithModifier = true)
    {name : String} {later : List Word} {next : Preamble → Reader α} {post : α → Prop}
    (noType : NoType (later ++ back)) (noArguments : NotNext .less (later ++ back))
    (fails : ∀ front words, NoType words → NotNext .less words → Fails mode (next front) words)
    (rest : ∀ front : Preamble, front.nullness = declaredBefore mode type.nullness →
      Takes mode False (next front)
        (argWords mode type.args ++ (suffixWords mode type ++ .ident name :: later)) back post) :
    Takes mode False (preamble >>= next)
      (preambleWords mode modifiers (some type) ++
        (ownTypeWords mode type ++ .ident name :: later)) back post := by
  have known : ModifierWord.ofWord? (firstPart type.name) ≠ none := by
    simpa [TypeRef.beginsWithModifier, Option.isSome_iff_ne_none] using begins
  have firstKnown : ∀ word ∈ [firstPart type.name], ModifierWord.ofWord? word ≠ none :=
    List.forall_mem_singleton.mpr known
  have step : ∀ words, EndsPreamble (words ++ back) →
      (∀ front : Preamble, front.nullness = declaredBefore mode type.nullness →
        Takes mode False (next front) words back post) →
      Takes mode False (preamble >>= next)
        (preambleWords mode modifiers (some type) ++ .ident (firstPart type.name) :: words) back
        post := by
    intro words ends continues
    have whole := (takes_preamble_more formed (some type) firstKnown ends
      (endsAnnotation_ident _ _)).bind continues
    simpa using whole
  obtain ⟨parts, shape⟩ := nameParts_shape type.name
  rw [ownTypeWords_named mode formedType (named_of_beginsWithModifier begins), nameWords, shape]
  cases parts with
  | cons part parts =>
      refine step _ (endsPreamble_punctuation (by decide) (by decide) _) fun front _ => ?_
      exact Fails.takes (fails front _ ((noType_cons _ _).mpr rfl)
        (notNext_of_ne TokenKind.noConfusion)) id
  | nil =>
      by_cases swallowed : argWords mode type.args ++ suffixWords mode type = [] ∧
          ModifierWord.ofWord? name ≠ none
      · obtain ⟨nothing, nameKnown⟩ := swallowed
        have bothKnown : ∀ word ∈ [firstPart type.name, name], ModifierWord.ofWord? word ≠ none :=
          List.forall_mem_cons.mpr ⟨known, List.forall_mem_singleton.mpr nameKnown⟩
        have whole : Takes mode False (preamble >>= next) _ back post :=
          (takes_preamble_more formed (some type) bothKnown (endsPreamble_noType noType)
            (endsAnnotation_ident _ _)).bind fun front _ => (fails front _ noType noArguments).takes id
        simpa [joinWords, nothing] using whole
      · have ends := endsPreamble_behindWord (later ++ back) swallowed
        have whole := step _ (by simpa using ends) rest
        simpa [joinWords] using whole

/-! ## Members -/

theorem misreads_field (idents : Identifiers allowed) {item : Field}
    (formed : item.Formed allowed) (bad : ¬item.Rereadable) :
    Takes mode False (Signature.field item.isEnumConstant) (fieldWords mode item) back
      fun found => found.name = item.name ∧ found ≠ item := by
  obtain ⟨name, modifiers, type, value, isEnumConstant⟩ := item
  have begins : type.beginsWithModifier = true := by simpa [Field.Rereadable] using bad
  have named := named_of_beginsWithModifier begins
  have behind : NoType (valueClauseWords .equals value ++ [.semicolon] ++ back) ∧
      EndsType (valueClauseWords .equals value ++ [.semicolon] ++ back) ∧
      NotNext .less (valueClauseWords .equals value ++ [.semicolon] ++ back) := by
    cases value <;> simp [valueClauseWords, Word.equals, Word.semicolon, Word.punctuation,
      beginsTypeKind, endsTypeKind]
  obtain ⟨noType, ends, noArguments⟩ := behind
  apply takes_greedyPreamble formed.modifiers formed.type begins noType noArguments
  · intro front words noType _
    exact (fails_typeRef noType).bind
  · intro front declared
    cases args : type.args with
    | cons first others =>
        exact Fails.takes (fails_typeRef ((noType_cons _ _).mpr rfl)).bind id
    | nil =>
        rw [declared]
        refine takes_leftType idents type formed.name noType ends fun found lexeme wildcard text =>
          ?_
        refine takes_capturedClause formed.value (fun _ => takes_skip rfl) (takes_skip_not ?_) ?_
        · simp [Word.semicolon, Word.punctuation]
        · refine (takes_expect rfl).last fun _ _ => takes_pure ⟨text, ?_⟩
          intro same
          injection same with _ _ sameType
          rw [sameType] at wildcard
          exact named wildcard

theorem misreads_method (idents : Identifiers allowed) {item : Method}
    (formed : item.Formed allowed) (clear : item.Clear) (bad : ¬item.Rereadable) :
    Takes mode False Signature.method (methodWords mode item) back
      fun found => found.name = item.name ∧ found.parameters = item.parameters ∧ found ≠ item := by
  have callClauses := @takes_callClauses mode False back allowed Method idents item formed clear
  obtain ⟨name, modifiers, typeParams, returnType, parameters, throws, defaultValue⟩ := item
  obtain ⟨rfl, begins⟩ : typeParams = [] ∧ returnType.beginsWithModifier = true := by
    simpa [Method.Rereadable] using bad
  have named := named_of_beginsWithModifier begins
  refine takes_greedyPreamble formed.modifiers formed.returnType begins ((noType_cons _ _).mpr rfl)
    (notNext_of_ne TokenKind.noConfusion) ?_ ?_
  · intro front words noType noArguments
    refine Takes.peek (takes_typeParams_none noArguments) fun found _ => ?_
    exact (fails_typeRef noType).bind
  · intro front declared
    have params : Takes mode False Signature.typeParams (argWords mode returnType.args)
        (suffixWords mode returnType ++ .ident name :: (parametersWords mode parameters ++
          (typesWords mode "throws" throws ++
            (valueClauseWords (.ident "default") defaultValue ++ [.semicolon]))) ++ back)
        fun _ => True := by
      cases args : returnType.args with
      | cons first others =>
          have inArgs := TypeRef.formedAll_iff.mp formed.returnType.parts.2.2
          rw [args] at inArgs
          exact takes_argsAsParams idents (List.cons_ne_nil first others) inArgs
      | nil =>
          refine (takes_typeParams_none ?_).mono fun _ _ => trivial
          simp only [suffixWords, List.append_assoc]
          exact notNext_dimWords _ (by decide) (notNext_varargsWords _ (by decide)
            (notNext_afterWords (by decide) (by decide) (notNext_of_ne TokenKind.noConfusion)))
    refine params.bind fun foundParams _ => ?_
    rw [declared]
    refine takes_leftType idents returnType formed.name ((noType_cons _ _).mpr rfl)
      ((endsType_cons _ _).mpr rfl) fun found lexeme wildcard text => ?_
    subst text
    apply callClauses
    refine (takes_expect rfl).last fun _ _ => takes_pure ⟨rfl, rfl, ?_⟩
    intro same
    injection same with _ _ _ sameType
    rw [sameType] at wildcard
    exact named wildcard

/-- A member that is not rereadable is read as another one of the same key, if at all. -/
theorem misreads_member (idents : Identifiers allowed) {member : Member}
    (formed : member.Formed allowed) (clear : member.Clear) (bad : ¬member.Rereadable) :
    Takes mode False Signature.member (memberWords mode member) back
      fun found => found.item.key = member.key ∧ found.item ≠ member := by
  cases member with
  | constructor item => exact absurd trivial bad
  | method item =>
      refine (takes_identifier _ "method").bind_word fun keyword text => ?_
      simp only [text]
      refine (misreads_method idents formed clear bad).last fun found outcome => takes_pure ?_
      obtain ⟨sameName, sameParameters, other⟩ := outcome
      refine ⟨?_, fun same => other (Member.method.inj same)⟩
      simp [Member.key, sameName, sameParameters]
  | field item =>
      refine takes_fieldMember (fun found => found.key = Member.key (.field item) ∧
        found ≠ .field item) ((misreads_field idents formed bad).mono ?_)
      rintro found ⟨sameName, other⟩
      refine ⟨?_, fun same => other (Member.field.inj same)⟩
      simp [Member.key, sameName]

/-- A member is read as one of the same key, and as itself just if it is rereadable. -/
theorem retells_member (idents : Identifiers allowed) {member : Member}
    (formed : member.Formed allowed) (clear : member.Clear) :
    Takes mode member.Rereadable Signature.member (memberWords mode member) back
      fun found => found.item.key = member.key ∧ (found.item = member ↔ member.Rereadable) := by
  by_cases good : member.Rereadable
  · apply (takes_member idents formed clear good).mono
    rintro found rfl
    exact ⟨rfl, fun _ => good, fun _ => rfl⟩
  · apply ((misreads_member idents formed clear good).weaken good).mono
    rintro found ⟨sameKey, other⟩
    exact ⟨sameKey, fun same => absurd same other, fun holds => absurd holds good⟩

end ApiCompat.Signature
