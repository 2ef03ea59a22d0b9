import ApiCompat.Proofs.Signature.Formed
import ApiCompat.Proofs.Signature.Words
import ApiCompat.Signature.Write

/-!
# The written text splits into its words

Nothing that the writer puts together fuses or falls apart when the text is
split into lexemes again.  Each part ends in a blank, in punctuation or in an
identifier, and what is written behind an identifier begins with a blank or
with punctuation.
-/

set_option autoImplicit false

namespace ApiCompat.Signature

variable {admits : List Char → Prop} {text : String} {words : List Word}

/-! ## Fixed texts -/

theorem separated_spaced {text word : String} (valid : isIdentifier word = true)
    (shape : text = " " ++ word ++ " ") : Separated text [.ident word] := by
  rw [shape]
  have front : Spelled (" " ++ word) ([] ++ [.ident word]) :=
    separated_blank.append (spelled_ident valid)
  exact front.close separated_blank (breaks_cons (by decide) []) (by decide)

theorem separated_word {text word : String} (valid : isIdentifier word = true)
    (shape : text = word ++ " ") : Separated text [.ident word] := by
  rw [shape]
  exact (spelled_ident valid).close separated_blank (breaks_cons (by decide) []) (by decide)

theorem separated_comma : Separated ", " [.comma] := by
  have comma : Separated "," [.comma] := separated_punctuation rfl (by decide)
  exact comma.append separated_blank

theorem separated_join {α : Type} {items : List α} (text : α → String) (words : α → List Word)
    (each : ∀ item ∈ items, Separated (text item) (words item)) :
    Separated (String.join (items.map text)) (items.flatMap words) := by
  induction items with
  | nil => exact spelling_nil
  | cons item items ih =>
      rw [List.map_cons, String.join_cons, List.flatMap_cons]
      have rest := ih fun next member => each next (List.mem_cons_of_mem _ member)
      exact (each item List.mem_cons_self).append rest

/-- Items with a comma and a blank between neighbours. -/
theorem spelled_commas {α : Type} {items : List α} (text : α → String) (words : α → List Word)
    (filled : items ≠ []) (each : ∀ item ∈ items, Spelled (text item) (words item)) :
    Spelled (joinWith ", " (items.map text)) (joinWords [.comma] (items.map words)) :=
  spelled_join text words filled (breaks_cons (by decide) _) each
    (fun item member => separated_comma.append (each item member)) (by decide)

/-! ## Types -/

theorem separated_markBefore (mode : NullMode) (nullness : Nullness) :
    Separated (markBefore mode nullness) (beforeWords mode nullness) := by
  have sign : Separated "@" [.atSign] := separated_punctuation rfl (by decide)
  cases mode with
  | nullAware => cases nullness <;> exact spelling_nil
  | legacy =>
      cases nullness with
      | unspecified => exact spelling_nil
      | nullable =>
          have mark : Separated "Nullable " [.ident "Nullable"] :=
            separated_word (by decide) (by decide)
          exact sign.append mark
      | nonNull =>
          have mark : Separated "NonNull " [.ident "NonNull"] :=
            separated_word (by decide) (by decide)
          exact sign.append mark

theorem spelled_markAfter (mode : NullMode) (nullness : Nullness) :
    Spelled (markAfter mode nullness) (afterWords mode nullness) ∧
      Breaks (markAfter mode nullness).toList := by
  have question : Separated "?" [.question] := separated_punctuation rfl (by decide)
  have bang : Separated "!" [.bang] := separated_punctuation rfl (by decide)
  cases mode with
  | legacy => cases nullness <;> exact ⟨spelling_nil, breaks_nil⟩
  | nullAware =>
      cases nullness with
      | unspecified => exact ⟨bang.spelled, breaks_cons (by decide) []⟩
      | nullable => exact ⟨question.spelled, breaks_cons (by decide) []⟩
      | nonNull => exact ⟨spelling_nil, breaks_nil⟩

theorem separated_dims (dims : Nat) :
    Separated (String.join (List.replicate dims "[]")) (dimWords dims) ∧
      Breaks (String.join (List.replicate dims "[]")).toList := by
  have left : Separated "[" [.leftBracket] := separated_punctuation rfl (by decide)
  have right : Separated "]" [.rightBracket] := separated_punctuation rfl (by decide)
  have pair : Separated "[]" [.leftBracket, .rightBracket] := left.append right
  induction dims with
  | zero => exact ⟨spelling_nil, breaks_nil⟩
  | succ dims ih =>
      rw [List.replicate_succ, String.join_cons]
      refine ⟨pair.append ih.1, ?_⟩
      rw [String.toList_append]
      exact breaks_cons (by decide) _

theorem spelled_suffixes (dims : Nat) (varargs : Bool) :
    Spelled (TypeRef.suffixes dims varargs) (dimWords dims ++ varargsWords varargs) ∧
      Breaks (TypeRef.suffixes dims varargs).toList := by
  obtain ⟨spelled, breaks⟩ := separated_dims dims
  cases varargs with
  | false =>
      refine ⟨spelled.append spelling_nil, ?_⟩
      simpa [TypeRef.suffixes] using breaks
  | true =>
      refine ⟨spelled.append separated_ellipsis.spelled, ?_⟩
      rw [TypeRef.suffixes, String.toList_append]
      exact breaks.append (breaks_cons (by decide) _)

theorem spelled_markType (mode : NullMode) (type : TypeRef) {bare : String} {words : List Word}
    (spelled : Spelled bare words) :
    Spelled (markType mode type bare) (markedWords mode type words) := by
  unfold markType markedWords
  split
  · exact spelled
  · obtain ⟨after, breaks⟩ := spelled_markAfter mode type.nullness
    have whole := (separated_markBefore mode type.nullness).append (spelled.join after breaks)
    rwa [← String.append_assoc] at whole

theorem breaks_writeBound (mode : NullMode) (bound : Bound TypeRef) :
    Breaks (writeBound mode bound).toList := by
  cases bound with
  | unbounded => exact breaks_nil
  | upper type =>
      rw [writeBound, String.toList_append]
      exact breaks_cons (by decide) _
  | lower type =>
      rw [writeBound, String.toList_append]
      exact breaks_cons (by decide) _

theorem breaks_writeArgs (mode : NullMode) (args : List TypeRef) :
    Breaks (writeArgs mode args).toList := by
  cases args with
  | nil => exact breaks_nil
  | cons type rest =>
      rw [writeArgs, String.append_assoc, String.toList_append]
      exact breaks_cons (by decide) _

theorem breaks_writeMoreArgs (mode : NullMode) (args : List TypeRef) :
    Breaks (writeMoreArgs mode args).toList ∧ (writeMoreArgs mode args).toList ≠ [] := by
  cases args with
  | nil =>
      rw [writeMoreArgs]
      exact ⟨breaks_cons (by decide) _, by decide⟩
  | cons type rest =>
      rw [writeMoreArgs, String.append_assoc, String.toList_append]
      exact ⟨breaks_cons (by decide) _, by simp⟩

variable {allowed : String → Prop}

theorem spelled_dottedName (idents : Identifiers allowed) {name : String}
    (dotted : DottedName allowed name) : Spelled name (nameWords name) :=
  spelled_name fun part member => idents part (dotted part member)

theorem spelled_head (idents : Identifiers allowed) {name : String}
    (head : name = "?" ∨ DottedName allowed name) :
    Spelled name (headWords name) := by
  unfold headWords
  split
  · next wildcard =>
      rw [wildcard]
      have sign : Separated "?" [.question] := separated_punctuation rfl (by decide)
      exact sign.spelled
  · next other =>
      rcases head with wildcard | dotted
      · exact absurd wildcard other
      · exact spelled_dottedName idents dotted

mutual

theorem spelled_writeBare (idents : Identifiers allowed) (mode : NullMode) :
    (type : TypeRef) → type.Formed allowed →
    Spelled (writeBare mode type) (bareWords mode type)
  | ⟨name, args, bound, dims, varargs, nullness⟩, formed => by
      obtain ⟨head, inBound, inArgs⟩ := formed.parts
      have name := spelled_head idents head
      have bound := spelled_writeBound idents mode bound inBound
      have args := spelled_writeArgs idents mode args inArgs
      obtain ⟨suffixes, suffixBreaks⟩ := spelled_suffixes dims varargs
      have whole := ((name.join bound (breaks_writeBound _ _)).join args
        (breaks_writeArgs _ _)).join suffixes suffixBreaks
      simpa only [writeBare, bareWords, List.append_assoc] using whole
termination_by structural type => type

theorem spelled_writeBound (idents : Identifiers allowed) (mode : NullMode) :
    (bound : Bound TypeRef) →
    TypeRef.FormedBound allowed bound →
    Spelled (writeBound mode bound) (boundWords mode bound)
  | .unbounded, _ => spelling_nil
  | .upper type, formed => by
      have word : Separated " extends " [.ident "extends"] :=
        separated_spaced (by decide) (by decide)
      exact word.append (spelled_markType mode type (spelled_writeBare idents mode type formed))
  | .lower type, formed => by
      have word : Separated " super " [.ident "super"] := separated_spaced (by decide) (by decide)
      exact word.append (spelled_markType mode type (spelled_writeBare idents mode type formed))
termination_by structural bound => bound

theorem spelled_writeArgs (idents : Identifiers allowed) (mode : NullMode) :
    (args : List TypeRef) →
    TypeRef.FormedAll allowed args → Spelled (writeArgs mode args) (argWords mode args)
  | [], _ => spelling_nil
  | type :: rest, formed => by
      have sign : Separated "<" [.less] := separated_punctuation rfl (by decide)
      have first := spelled_markType mode type (spelled_writeBare idents mode type formed.1)
      have more := spelled_writeMoreArgs idents mode rest formed.2
      obtain ⟨breaks, filled⟩ := breaks_writeMoreArgs mode rest
      have whole := sign.append (first.close more.spelled breaks filled)
      rwa [← String.append_assoc] at whole
termination_by structural args => args

theorem spelled_writeMoreArgs (idents : Identifiers allowed) (mode : NullMode) :
    (args : List TypeRef) →
    TypeRef.FormedAll allowed args → Separated (writeMoreArgs mode args) (moreArgWords mode args)
  | [], _ => separated_punctuation rfl (by decide)
  | type :: rest, formed => by
      have first := spelled_markType mode type (spelled_writeBare idents mode type formed.1)
      have more := spelled_writeMoreArgs idents mode rest formed.2
      obtain ⟨breaks, filled⟩ := breaks_writeMoreArgs mode rest
      have whole := separated_comma.append (first.close more breaks filled)
      rwa [← String.append_assoc] at whole
termination_by structural args => args

end

theorem spelled_writeType (idents : Identifiers allowed) (mode : NullMode) {type : TypeRef}
    (formed : type.Formed allowed) :
    Spelled (writeType mode type) (typeWords mode type) :=
  spelled_markType mode type (spelled_writeBare idents mode type formed)

theorem spelled_writeOwnType (idents : Identifiers allowed) (mode : NullMode) {type : TypeRef}
    (formed : type.Formed allowed) :
    Spelled (writeOwnType mode type) (ownTypeWords mode type) := by
  cases mode with
  | legacy =>
      have same : ownTypeWords .legacy type = bareWords .legacy type := by
        simp [ownTypeWords, closedWords, afterWords]
      rw [same]
      exact spelled_writeBare idents .legacy type formed
  | nullAware =>
      have same : ownTypeWords .nullAware type = typeWords .nullAware type := by
        simp [ownTypeWords, closedWords, typeWords, markedWords, beforeWords]
      rw [same]
      exact spelled_writeType idents .nullAware formed

/-! ## Parts of declarations -/

theorem isIdentifier_words (modifiers : Modifiers) :
    ∀ word ∈ modifiers.words, isIdentifier word = true := by
  intro word member
  rcases List.mem_append.mp member with scope | raised
  · cases visibility : modifiers.visibility <;> rw [visibility] at scope <;>
      simp only [Visibility.word?, Option.toList_some, Option.toList_none, List.mem_singleton,
        List.not_mem_nil] at scope <;> subst scope <;> decide
  · obtain ⟨flag, _, rfl⟩ := List.mem_map.mp raised
    cases flag <;> decide

theorem separated_ownMark (mode : NullMode) (ownType : Option TypeRef) :
    Separated (String.join ((ownTypeMark mode ownType).toList.map fun word => word ++ " "))
      (ownMarkWords mode ownType) := by
  cases ownType with
  | none => cases mode <;> exact spelling_nil
  | some type =>
      have mark := separated_markBefore mode type.nullness
      refine mark.of_eq ?_ rfl
      cases mode with
      | nullAware => rfl
      | legacy =>
          simp only [ownTypeMark, markBefore]
          cases type.nullness.annotationText? with
          | none => rfl
          | some text => simp [String.join_cons]

theorem separated_writePreamble (mode : NullMode) {modifiers : Modifiers}
    (formed : modifiers.Formed) (ownType : Option TypeRef) :
    Separated (writePreamble mode modifiers ownType) (preambleWords mode modifiers ownType) := by
  have annotations : Separated (String.join (modifiers.annotations.map fun text => text ++ " "))
      (modifiers.annotations.flatMap annotationWords) :=
    separated_join _ annotationWords fun text member => (formed text member).separated
  have mark := separated_ownMark mode ownType
  have words : Separated (String.join (modifiers.words.map fun word => word ++ " "))
      (modifiers.words.flatMap fun word => [.ident word]) :=
    separated_join _ _ fun word member =>
      separated_word (isIdentifier_words modifiers word member) rfl
  have whole := annotations.append (mark.append words)
  have flat : (modifiers.words.flatMap fun word => [Word.ident word]) =
      modifiers.words.map Word.ident := by
    induction modifiers.words with
    | nil => rfl
    | cons word rest ih => simp [List.flatMap_cons, ih]
  rw [flat] at whole
  rw [writePreamble, List.map_append, List.map_append, String.join_append, String.join_append,
    String.append_assoc]
  exact whole

theorem spelled_writeTypeParam (idents : Identifiers allowed) (mode : NullMode)
    {param : TypeParam} (formed : param.Formed allowed) :
    Spelled (writeTypeParam mode param) (typeParamWords mode param) := by
  have name := spelled_ident (idents _ formed.name)
  unfold writeTypeParam typeParamWords
  split
  · exact name
  · next bounded =>
      have filled : param.bounds ≠ [] := by simpa using bounded
      have word : Separated " extends " [.ident "extends"] :=
        separated_spaced (by decide) (by decide)
      have between : Separated " & " [.ampersand] := by
        have sign : Separated "&" [.ampersand] := separated_punctuation rfl (by decide)
        exact separated_blank.append (sign.append separated_blank)
      have each : ∀ type ∈ param.bounds, Spelled (writeType mode type) (typeWords mode type) :=
        fun type member => spelled_writeType idents mode (formed.bounds type member)
      have bounds : Spelled (joinWith " & " (param.bounds.map (writeType mode)))
          (joinWords [.ampersand] (param.bounds.map (typeWords mode))) :=
        spelled_join _ _ filled (breaks_cons (by decide) _) each
          (fun type member => between.append (each type member)) (by decide)
      have front : Separated (param.name ++ " extends ") [.ident param.name, .ident "extends"] :=
        name.close word (breaks_cons (by decide) _) (by decide)
      have whole := front.append bounds
      simpa using whole

theorem spelled_writeTypeParams (idents : Identifiers allowed) (mode : NullMode)
    {params : List TypeParam} (formed : ∀ param ∈ params, param.Formed allowed) :
    Separated (writeTypeParams mode params) (typeParamsWords mode params) ∧
      Breaks (writeTypeParams mode params).toList := by
  unfold writeTypeParams typeParamsWords
  split
  · exact ⟨spelling_nil, breaks_nil⟩
  · next filled =>
      have opening : Separated "<" [.less] := separated_punctuation rfl (by decide)
      have closing : Separated ">" [.greater] := separated_punctuation rfl (by decide)
      have each : ∀ param ∈ params,
          Spelled (writeTypeParam mode param) (typeParamWords mode param) :=
        fun param member => spelled_writeTypeParam idents mode (formed param member)
      have items := spelled_commas (writeTypeParam mode) (typeParamWords mode)
        (by simpa using filled) each
      have whole := opening.append
        (items.close closing (breaks_cons (by decide) _) (by decide))
      rw [← String.append_assoc] at whole
      refine ⟨whole, ?_⟩
      rw [String.append_assoc, String.toList_append]
      exact breaks_cons (by decide) _

theorem separated_writeOwnTypeParams (idents : Identifiers allowed) (mode : NullMode)
    {params : List TypeParam} (formed : ∀ param ∈ params, param.Formed allowed) :
    Separated (writeOwnTypeParams mode params) (typeParamsWords mode params) := by
  have params := (spelled_writeTypeParams idents mode formed).1
  unfold writeOwnTypeParams
  split
  · next empty =>
      rw [List.isEmpty_iff.mp empty]
      exact spelling_nil
  · have whole := params.append separated_blank
    rwa [List.append_nil] at whole

theorem spelled_writeParameter (idents : Identifiers allowed) (mode : NullMode)
    {parameter : Parameter} (formed : parameter.Formed allowed) :
    Spelled (writeParameter mode parameter) (parameterWords mode parameter) := by
  have type := spelled_writeType idents mode formed.type
  unfold writeParameter parameterWords
  cases shape : parameter.name with
  | none =>
      have whole := type.join spelling_nil breaks_nil
      simpa using whole
  | some name =>
      have valid := idents name (formed.name name shape)
      have front : Separated (writeType mode parameter.type ++ " ")
          (typeWords mode parameter.type ++ []) :=
        type.close separated_blank (breaks_cons (by decide) _) (by decide)
      have whole := front.append (spelled_ident valid)
      simpa using whole

theorem separated_writeParameters (idents : Identifiers allowed) (mode : NullMode)
    {parameters : List Parameter} (formed : ∀ parameter ∈ parameters, parameter.Formed allowed) :
    Separated (writeParameters mode parameters) (parametersWords mode parameters) ∧
      Breaks (writeParameters mode parameters).toList ∧
      (writeParameters mode parameters).toList ≠ [] := by
  have opening : Separated "(" [.leftParen] := separated_punctuation rfl (by decide)
  have closing : Separated ")" [.rightParen] := separated_punctuation rfl (by decide)
  have items : Spelled (joinWith ", " (parameters.map (writeParameter mode)))
      (joinWords [.comma] (parameters.map (parameterWords mode))) := by
    cases parameters with
    | nil => exact spelling_nil
    | cons parameter rest =>
        exact spelled_commas _ _ (List.cons_ne_nil _ _) fun parameter member =>
          spelled_writeParameter idents mode (formed parameter member)
  have whole := opening.append (items.close closing (breaks_cons (by decide) _) (by decide))
  rw [← String.append_assoc] at whole
  refine ⟨whole, ?_⟩
  rw [writeParameters, String.append_assoc, String.toList_append]
  exact ⟨breaks_cons (by decide) _, by simp⟩

theorem spelled_writeTypes (idents : Identifiers allowed) (mode : NullMode) {keyword : String}
    (valid : isIdentifier keyword = true) {types : List TypeRef}
    (formed : ∀ type ∈ types, type.Formed allowed) :
    Spelled (writeTypes mode keyword types) (typesWords mode keyword types) ∧
      Breaks (writeTypes mode keyword types).toList := by
  unfold writeTypes typesWords
  split
  · exact ⟨spelling_nil, breaks_nil⟩
  · next filled =>
      have word : Separated (" " ++ keyword ++ " ") [.ident keyword] := separated_spaced valid rfl
      have items := spelled_commas (writeType mode) (typeWords mode) (by simpa using filled)
        fun type member => spelled_writeType idents mode (formed type member)
      refine ⟨word.append items, ?_⟩
      rw [String.append_assoc, String.append_assoc, String.toList_append]
      exact breaks_cons (by decide) _

/-- A value runs up to the semicolon that ends the declaration. -/
theorem separated_writeValue {sign : String} {word : Word}
    (separated : Separated (" " ++ sign ++ " ") [word]) {value : Option String}
    (captured : ∀ text ∈ value, CapturedValue text) :
    Separated (writeValue sign value ++ ";") (valueClauseWords word value ++ [.semicolon]) ∧
      Breaks (writeValue sign value ++ ";").toList ∧
      (writeValue sign value ++ ";").toList ≠ [] := by
  cases value with
  | none =>
      have mark : Separated ";" [.semicolon] := separated_punctuation rfl (by decide)
      refine ⟨mark, ?_, ?_⟩
      · rw [writeValue, String.empty_append]
        exact breaks_cons (by decide) _
      · simp
  | some text =>
      have whole := separated.append (captured text rfl).separated
      rw [← String.append_assoc] at whole
      refine ⟨whole, ?_, ?_⟩
      · rw [writeValue, String.append_assoc, String.append_assoc, String.append_assoc,
          String.toList_append]
        exact breaks_cons (by decide) _
      · simp

/-! ## Declarations -/

theorem separated_writeConstructor (idents : Identifiers allowed) (mode : NullMode)
    {item : Constructor} (formed : item.Formed allowed) :
    Separated (writeMember mode (.constructor item)) (memberWords mode (.constructor item)) := by
  have keyword : Separated "ctor " [.ident "ctor"] := separated_word (by decide) (by decide)
  have preamble := separated_writePreamble mode formed.modifiers none
  have typeParams := separated_writeOwnTypeParams idents mode formed.typeParams
  have name := spelled_dottedName idents formed.name
  obtain ⟨parameters, breaks, filled⟩ := separated_writeParameters idents mode formed.parameters
  have word : isIdentifier "throws" = true := by decide
  obtain ⟨throws, throwsBreaks⟩ := spelled_writeTypes idents mode word formed.throws
  have mark : Separated ";" [.semicolon] := separated_punctuation rfl (by decide)
  have front := ((keyword.append preamble).append typeParams).append name
  have whole := ((front.close parameters breaks filled).append throws).close mark
    (breaks_cons (by decide) _) (by decide)
  apply whole.of_eq rfl
  simp only [memberWords, constructorWords, List.append_assoc, List.cons_append, List.nil_append]

theorem separated_writeMethod (idents : Identifiers allowed) (mode : NullMode)
    {item : Method} (formed : item.Formed allowed) :
    Separated (writeMember mode (.method item)) (memberWords mode (.method item)) := by
  have keyword : Separated "method " [.ident "method"] := separated_word (by decide) (by decide)
  have preamble := separated_writePreamble mode formed.modifiers (some item.returnType)
  have typeParams := separated_writeOwnTypeParams idents mode formed.typeParams
  have type := spelled_writeOwnType idents mode formed.returnType
  have name := spelled_ident (idents _ formed.name)
  obtain ⟨parameters, breaks, filled⟩ := separated_writeParameters idents mode formed.parameters
  have word : isIdentifier "throws" = true := by decide
  obtain ⟨throws, throwsBreaks⟩ := spelled_writeTypes idents mode word formed.throws
  have sign : Separated (" " ++ "default" ++ " ") [.ident "default"] :=
    separated_spaced (by decide) rfl
  obtain ⟨value, valueBreaks, valueFilled⟩ := separated_writeValue sign formed.defaultValue
  have front := ((keyword.append preamble).append typeParams).append type
  have named := (front.close separated_blank (breaks_cons (by decide) _) (by decide)).append name
  have whole := ((named.close parameters breaks filled).append throws).close value valueBreaks
    valueFilled
  rw [← String.append_assoc] at whole
  apply whole.of_eq rfl
  simp only [memberWords, methodWords, List.append_assoc, List.cons_append, List.nil_append]

theorem separated_writeField (idents : Identifiers allowed) (mode : NullMode)
    {item : Field} (formed : item.Formed allowed) :
    Separated (writeMember mode (.field item)) (memberWords mode (.field item)) := by
  have keyword : Separated (if item.isEnumConstant then "enum_constant " else "field ")
      [.ident (if item.isEnumConstant then "enum_constant" else "field")] := by
    split
    · exact separated_word (by decide) (by decide)
    · exact separated_word (by decide) (by decide)
  have preamble := separated_writePreamble mode formed.modifiers (some item.type)
  have type := spelled_writeOwnType idents mode formed.type
  have name := spelled_ident (idents _ formed.name)
  have equals : Separated "=" [.equals] := separated_punctuation rfl (by decide)
  have sign : Separated (" " ++ "=" ++ " ") [.equals] :=
    (separated_blank.append equals).append separated_blank
  obtain ⟨value, valueBreaks, valueFilled⟩ := separated_writeValue sign formed.value
  have front := (keyword.append preamble).append type
  have named := (front.close separated_blank (breaks_cons (by decide) _) (by decide)).append name
  have whole := named.close value valueBreaks valueFilled
  rw [← String.append_assoc] at whole
  apply whole.of_eq rfl
  simp only [memberWords, fieldWords, List.append_assoc, List.cons_append, List.nil_append]

theorem separated_writeMember (idents : Identifiers allowed) (mode : NullMode) {member : Member}
    (formed : member.Formed allowed) :
    Separated (writeMember mode member) (memberWords mode member) := by
  cases member with
  | constructor item => exact separated_writeConstructor idents mode formed
  | method item => exact separated_writeMethod idents mode formed
  | field item => exact separated_writeField idents mode formed

theorem separated_kind (kind : ClassKind) :
    Separated (kind.keyword ++ " ") (kindWords kind) := by
  cases kind with
  | classKind => exact separated_word (by decide) rfl
  | interfaceKind => exact separated_word (by decide) rfl
  | enumKind => exact separated_word (by decide) rfl
  | annotationKind =>
      have sign : Separated "@" [.atSign] := separated_punctuation rfl (by decide)
      have word : Separated "interface " [.ident "interface"] :=
        separated_word (by decide) (by decide)
      exact sign.append word

theorem separated_writeClassHead (idents : Identifiers allowed) (mode : NullMode) {cls : ClassDecl}
    (formed : cls.Formed allowed) :
    Separated (writeClassHead mode cls) (preambleWords mode cls.modifiers none ++
      (kindWords cls.kind ++ (nameWords cls.name ++ (typeParamsWords mode cls.typeParams ++
        (supertypeWords mode cls.kind cls.superclass cls.interfaces.toList ++ [.leftBrace]))))) := by
  have preamble := separated_writePreamble mode formed.modifiers none
  have kind := separated_kind cls.kind
  have name := spelled_dottedName idents formed.name
  obtain ⟨typeParams, paramsBreaks⟩ := spelled_writeTypeParams idents mode formed.typeParams
  have extending : isIdentifier "extends" = true := by decide
  have implementing : isIdentifier (interfacesKeyword cls.kind) = true := by
    cases cls.kind <;> decide
  have superFormed : ∀ type ∈ cls.superclass.toList, type.Formed allowed := by
    intro type member
    exact formed.superclass type (Option.mem_toList.mp member)
  obtain ⟨extended, extendedBreaks⟩ := spelled_writeTypes idents mode extending superFormed
  obtain ⟨implemented, implementedBreaks⟩ :=
    spelled_writeTypes idents mode implementing formed.interfaces
  have brace : Separated "\x7b" [.leftBrace] := separated_punctuation rfl (by decide)
  have opening : Separated " \x7b" [.leftBrace] := separated_blank.append brace
  have front := (preamble.append kind).append name
  have typed := ((front.join typeParams.spelled paramsBreaks).join extended extendedBreaks).join
    implemented implementedBreaks
  have whole := typed.close opening (breaks_cons (by decide) _) (by decide)
  apply whole.of_eq
  · rw [← String.append_assoc]
    rfl
  · simp only [supertypeWords, List.append_assoc]

theorem separated_writeClass (idents : Identifiers allowed) (mode : NullMode) {cls : ClassDecl}
    (formed : cls.Formed allowed) : Separated (writeClass mode cls) (classWords mode cls) := by
  have indent : Separated "  " [] := separated_gap fun _ => rfl
  have deeper : Separated "    " [] := separated_gap fun _ => rfl
  have head := separated_writeClassHead idents mode formed
  have members := separated_join (fun found : Located Member =>
      "    " ++ writeMember mode found.item ++ "\n") (fun found => memberWords mode found.item)
    fun found stored => by
      have member := separated_writeMember idents mode (formed.members found stored)
      have whole := (deeper.append member).append separated_lineFeed
      simpa only [List.nil_append, List.append_nil] using whole
  have brace : Separated "\x7d" [.rightBrace] := separated_punctuation rfl (by decide)
  have closing : Separated "  \x7d\n" [.rightBrace] :=
    indent.append (brace.append separated_lineFeed)
  have whole := (((indent.append head).append separated_lineFeed).append members).append closing
  apply whole.of_eq rfl
  simp only [classWords, List.append_assoc, List.nil_append, List.append_nil, List.cons_append]

theorem separated_writePackage (idents : Identifiers allowed) (mode : NullMode) {package : Package}
    (formed : package.Formed allowed) :
    Separated (writePackage mode package) (packageWords mode package) := by
  have keyword : Separated "package " [.ident "package"] := separated_word (by decide) (by decide)
  have name := spelled_dottedName idents formed.name
  have left : Separated "\x7b" [.leftBrace] := separated_punctuation rfl (by decide)
  have opening : Separated " \x7b\n" [.leftBrace] :=
    separated_blank.append (left.append separated_lineFeed)
  have classes := separated_join (fun found : Located ClassDecl => writeClass mode found.item)
    (fun found => classWords mode found.item)
    fun found stored => separated_writeClass idents mode (formed.classes found stored)
  have right : Separated "\x7d" [.rightBrace] := separated_punctuation rfl (by decide)
  have closing : Separated "\x7d\n" [.rightBrace] := right.append separated_lineFeed
  have front := (keyword.append name).close opening (breaks_cons (by decide) _) (by decide)
  have whole := (front.append classes).append closing
  apply whole.of_eq rfl
  simp only [packageWords, List.append_assoc, List.nil_append, List.cons_append]

theorem separated_writeHeader (mode : NullMode) : Separated (writeHeader mode) [] := by
  cases mode with
  | legacy => exact separated_gap fun _ => rfl
  | nullAware => exact separated_gap fun _ => rfl

/-- The canonical text of an API splits into the words of its packages. -/
theorem tokenize_write (idents : Identifiers allowed) {api : Api} (formed : api.Formed allowed) :
    ∃ lexemes, tokenize (write api) = .ok lexemes ∧ Spells (apiWords api) lexemes := by
  have packages := separated_join (fun found : Located Package =>
      writePackage api.nullMode found.item) (fun found => packageWords api.nullMode found.item)
    fun found stored => separated_writePackage idents api.nullMode (formed.packages found stored)
  have whole := (separated_writeHeader api.nullMode).append packages
  have atEnd : Scans [] [] := .blank rfl
  have scans := whole.scans [] [] trivial loose_nil atEnd
  rw [List.append_nil, List.append_nil] at scans
  exact scans.tokenizeFrom 0 1

end ApiCompat.Signature
