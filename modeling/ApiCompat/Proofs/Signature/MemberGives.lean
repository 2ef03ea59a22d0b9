import ApiCompat.Proofs.Signature.Fronts
import ApiCompat.Proofs.Signature.TypeGives

/-!
# The members that are read

Every member that is read is made of identifiers and of annotations and values
that are captured whole, and no name in it could have been taken for something
else where it stands.
-/

set_option autoImplicit false

namespace ApiCompat.Signature

open Reader

variable {pre : List Lexeme → Prop}

/-! ## Preambles -/

/-- The next lexeme is no modifier word. -/
def NoModifier (rest : List Lexeme) : Prop :=
  ∀ next ∈ rest.head?, next.kind = .identifier → ModifierWord.ofWord? next.text = none

theorem gives_preamble :
    Gives Anything preamble fun front rest => front.modifiers.Formed ∧ NoModifier rest := by
  intro context lexemes found rest lexed _ read
  obtain ⟨front, isFront⟩ := preamble_eq_ok read
  refine ⟨isFront.whole ▸ List.suffix_append _ _, ?_, isFront.ends.noModifier⟩
  intro text stored
  rw [isFront.modifiers, annotations_foldl_apply] at stored
  obtain ⟨item, inFront, kept⟩ := List.mem_filterMap.mp stored
  obtain ⟨use, free, rfl, unknown, rfl⟩ := FrontItem.kept?_eq_some_iff.mp kept
  obtain ⟨behind, inText, ends⟩ := isFront.annotation inFront
  have readAgain := annotationUse_apply use ends context
  refine capturedAnnotation_of_read (lexed.suffix inText) readAgain unknown ?_
  simpa [AnnotationUse.lexemes] using free

theorem yields_preamble : Yields preamble fun front => front.modifiers.Formed :=
  gives_preamble.imp (fun _ => id) fun _ _ outcome => outcome.1

/-! ## Parts of members -/

theorem yields_typeParam : Yields typeParam (TypeParam.Formed AnyIdentifier) := by
  refine yields_identifier.bind fun name valid => ?_
  refine gives_skipWord.anywhere.bind fun bounded => ?_
  cases bounded with
  | false => exact gives_pure fun _ _ => ⟨valid, by simp⟩
  | true =>
      refine (yields_separated yields_plainType .ampersand).anywhere.bind fun bounds => ?_
      exact gives_pure fun _ formed => ⟨valid, formed.2⟩

/-- Without type parameters nothing was taken. -/
theorem gives_typeParams :
    Gives pre typeParams fun params rest =>
      (∀ param ∈ params, param.Formed AnyIdentifier) ∧ (params = [] → pre rest) := by
  refine gives_skip.bind fun opened => ?_
  cases opened with
  | false => exact gives_pure fun _ before => ⟨List.forall_mem_nil _, fun _ => before rfl⟩
  | true =>
      refine (yields_separated yields_typeParam .comma).anywhere.bind fun params =>
        Yields.of fun formed => ?_
      exact yields_expect.bind fun _ _ =>
        gives_pure fun _ _ => ⟨formed.2, fun none => absurd none formed.1⟩

theorem NoBound.clear {lexeme : Lexeme} {rest : List Lexeme} (noBound : NoBound (lexeme :: rest))
    (kind : lexeme.kind = .identifier) : lexeme.text ≠ "extends" ∧ lexeme.text ≠ "super" := by
  obtain ⟨notExtends, notSuper⟩ := noBound lexeme rfl
  simp only [Lexeme.isWord, kind, beq_self_eq_true, Bool.true_and, beq_eq_false_iff_ne]
    at notExtends notSuper
  exact ⟨notExtends, notSuper⟩

theorem yields_parameter :
    Yields Signature.parameter fun parameter =>
      parameter.Formed AnyIdentifier ∧ parameter.Clear := by
  refine gives_typeRef.bind fun type => ?_
  refine gives_takeIf.bind fun found => gives_pure ?_
  rintro rest ⟨taken, none⟩
  cases found with
  | none => exact ⟨⟨by simp, (none rfl).1.1⟩, by simp [Parameter.Clear]⟩
  | some lexeme =>
      obtain ⟨passes, lexed, formed, closed⟩ := taken lexeme rfl
      have kind : lexeme.kind = .identifier := by simpa using passes
      refine ⟨⟨?_, formed⟩, ?_⟩
      · intro name same
        obtain rfl := Option.some.inj same
        exact lexed.isIdentifier kind
      · intro name same isOpen
        obtain rfl := Option.some.inj same
        exact (closed isOpen).clear kind

theorem yields_parameters :
    Yields Signature.parameters fun parameters =>
      ∀ parameter ∈ parameters, parameter.Formed AnyIdentifier ∧ parameter.Clear := by
  refine yields_expect.bind fun _ _ => ?_
  refine gives_skip.anywhere.bind fun closed => ?_
  cases closed with
  | true => exact gives_pure fun _ _ => List.forall_mem_nil _
  | false =>
      refine (yields_separated yields_parameter .comma).anywhere.bind fun items =>
        Yields.of fun formed => ?_
      exact yields_expect.bind fun _ _ => gives_pure fun _ _ => formed.2

theorem yields_throwsClause :
    Yields throwsClause fun types => ∀ type ∈ types, type.Formed AnyIdentifier := by
  refine gives_skipWord.anywhere.bind fun found => ?_
  cases found with
  | false => exact gives_pure fun _ _ => List.forall_mem_nil _
  | true =>
      exact (yields_separated yields_plainType .comma).anywhere.imp (fun _ => id)
        fun _ _ formed => formed.2

theorem yields_rawValue : Yields rawValue CapturedValue := by
  intro context lexemes text rest lexed _ read
  obtain ⟨taken, semicolon, behind, rfl, _⟩ := rawValue_eq_ok read
  exact ⟨List.suffix_append _ _, capturedValue_of_read lexed read⟩

/-- What is read of a member from its value on. -/
theorem gives_valueClause {α : Type} {found : Bool} {next : Option String → Reader α}
    {post : α → List Lexeme → Prop}
    (rest : ∀ value, (∀ text ∈ value, CapturedValue text) → Gives Anything (next value) post) :
    Gives Anything
      (if found = true then (some <$> rawValue) >>= next else (pure none) >>= next) post := by
  cases found with
  | false => exact rest none (by simp)
  | true =>
      have kept : Yields (some <$> rawValue) fun value => ∀ text ∈ value, CapturedValue text := by
        refine yields_rawValue.bind fun text captured => gives_pure fun _ _ text' same => ?_
        obtain rfl := Option.some.inj same
        exact captured
      exact kept.bind rest

/-- The name after a type is not the word of its bound. -/
theorem gives_clearName {type : TypeRef} {expected : Expected} :
    Gives (fun rest => type.endsOpen = true → NoBound rest) (identifier expected)
      fun name _ => AnyIdentifier name.text ∧ ClearName type name.text :=
  gives_identifier.imp (fun _ => id) fun _ _ outcome =>
    ⟨outcome.1, fun isOpen => (outcome.2.2 isOpen).clear outcome.2.1⟩

/-! ## Members -/

theorem yields_constructor :
    Yields Signature.constructor fun item => item.Formed AnyIdentifier ∧ item.Clear := by
  refine gives_preamble.bind fun front => gives_of fun formedModifiers => ?_
  refine gives_typeParams.bind fun typeParams => gives_of fun formedParams => ?_
  refine gives_qualifiedName.bind fun name => Yields.of fun named => ?_
  obtain ⟨dotted, first, later, noModifier, kind, text⟩ := named
  refine yields_parameters.bind fun parameters formedParameters => ?_
  refine yields_throwsClause.bind fun throws formedThrows => ?_
  refine yields_expect.bind fun _ _ => gives_pure fun _ _ => ⟨?_, ?_⟩
  · exact ⟨dotted, formedModifiers, formedParams,
      fun parameter stored => (formedParameters parameter stored).1, formedThrows⟩
  · refine ⟨fun none => ?_, fun parameter stored => (formedParameters parameter stored).2⟩
    rw [← text]
    exact noModifier none first rfl kind

theorem yields_method :
    Yields Signature.method fun item => item.Formed AnyIdentifier ∧ item.Clear := by
  refine yields_preamble.bind fun front formedModifiers => ?_
  refine gives_typeParams.bind fun typeParams => gives_of fun formedParams => ?_
  refine gives_typeRef.anywhere.bind fun returnType => gives_of fun formedType => ?_
  refine gives_clearName.bind fun name => Yields.of fun named => ?_
  refine yields_parameters.bind fun parameters formedParameters => ?_
  refine yields_throwsClause.bind fun throws formedThrows => ?_
  refine gives_skipWord.anywhere.bind fun found => ?_
  refine Gives.anywhere (gives_valueClause fun defaultValue captured => ?_)
  refine yields_expect.bind fun _ _ => gives_pure fun _ _ => ⟨?_, ?_⟩
  · exact ⟨named.1, formedModifiers, formedParams, formedType,
      fun parameter stored => (formedParameters parameter stored).1, formedThrows, captured⟩
  · exact ⟨named.2, fun parameter stored => (formedParameters parameter stored).2⟩

theorem yields_field (isEnumConstant : Bool) :
    Yields (Signature.field isEnumConstant) fun item =>
      item.Formed AnyIdentifier ∧ item.Clear := by
  refine yields_preamble.bind fun front formedModifiers => ?_
  refine gives_typeRef.bind fun type => gives_of fun formedType => ?_
  refine gives_clearName.bind fun name => Yields.of fun named => ?_
  refine gives_skip.anywhere.bind fun found => ?_
  refine Gives.anywhere (gives_valueClause fun value captured => ?_)
  refine yields_expect.bind fun _ _ => gives_pure fun _ _ => ⟨?_, named.2⟩
  exact ⟨named.1, formedModifiers, formedType, captured⟩

theorem yields_member :
    Yields Signature.member fun found => found.item.Formed AnyIdentifier ∧ found.item.Clear := by
  refine yields_identifier.bind fun keyword _ => ?_
  dsimp only
  split
  · exact yields_constructor.bind fun item holds => gives_pure fun _ _ => holds
  · exact yields_method.bind fun item holds => gives_pure fun _ _ => holds
  · exact (yields_field false).bind fun item holds => gives_pure fun _ _ => holds
  · exact (yields_field true).bind fun item holds => gives_pure fun _ _ => holds
  · exact gives_failAt

end ApiCompat.Signature
