import ApiCompat.Proofs.Respaced.Classes
import ApiCompat.Proofs.Signature.Local
import ApiCompat.Proofs.Signature.Refront

/-!
# What a declaration begins with

The first lexeme behind a front is of one of four kinds (`Leads`).  None of
them continues an annotation, so a front may end in any of its items.  And of
this lexeme only the token is seen (`Leading`), so what stands between it and
the front does not matter.
-/

set_option autoImplicit false

namespace ApiCompat.Signature

open Reader

/-- A declaration may begin with the lexeme, or go on with it behind its front. -/
def Leads (lexeme : Lexeme) : Prop :=
  lexeme.kind ∈ [TokenKind.identifier, .atSign, .less, .question]

theorem Leads.kind_ne {lexeme : Lexeme} (leads : Leads lexeme) {kind : TokenKind}
    (other : kind ∉ [TokenKind.identifier, .atSign, .less, .question]) : lexeme.kind ≠ kind := by
  rintro rfl
  exact other leads

theorem leads_of_kind {lexeme : Lexeme} {kind : TokenKind} (same : lexeme.kind = kind)
    (leads : kind ∈ [TokenKind.identifier, .atSign, .less, .question]) : Leads lexeme := by
  rw [Leads, same]
  exact leads

theorem leads_of_isWord {lexeme : Lexeme} {word : String} (isWord : lexeme.isWord word = true) :
    Leads lexeme := by
  simp only [Lexeme.isWord, Bool.and_eq_true, beq_iff_eq] at isWord
  exact leads_of_kind isWord.1 (by decide)

/-- If the reader takes the first lexeme, this one leads a declaration, and of it only the token is
seen. -/
structure Leading {α : Type} (reader : Reader α) : Prop where
  leads : ∀ context next later value rest, reader context (next :: later) = .ok (value, rest) →
    rest = next :: later ∨ Leads next
  sees : ∀ context next next' later value rest, next.token = next'.token →
    reader context (next :: later) = .ok (value, rest) →
    (rest = next :: later ∧ reader context (next' :: later) = .ok (value, next' :: later)) ∨
      reader context (next' :: later) = .ok (value, rest)

section Composition

variable {α β : Type} {reader : Reader α} {next : α → Reader β}

/-- A reader that sees tokens only sees only the token of the first lexeme. -/
theorem leading_of_follows
    (leads : ∀ context next later value rest, reader context (next :: later) = .ok (value, rest) →
      rest = next :: later ∨ Leads next)
    (follows : ∀ run : Respacing, run.Follows Eq reader reader) : Leading reader where
  leads := leads
  sees := by
    intro context next next' later value rest same read
    let run : Respacing :=
      { context, context' := context, lexemes := next :: later, lexemes' := next' :: later,
        sameMode := rfl
        sameTokens := by rw [List.map_cons, List.map_cons, same] }
    have outcomes := follows run (next :: later) (next' :: later) ⟨0, rfl, rfl⟩
    have read : reader run.context (next :: later) = .ok (value, rest) := read
    rw [read] at outcomes
    cases read' : reader context (next' :: later) with
    | error fault =>
        have read' : reader run.context' (next' :: later) = .error fault := read'
        rw [read'] at outcomes
        cases outcomes
    | ok pair =>
        obtain ⟨value', rest'⟩ := pair
        have read' : reader run.context' (next' :: later) = .ok (value', rest') := read'
        rw [read'] at outcomes
        cases outcomes with
        | read holds =>
            obtain ⟨rfl, place, rfl, rfl⟩ : value = value' ∧ run.Beside rest rest' := holds
            cases place with
            | zero => exact .inl ⟨rfl, rfl⟩
            | succ place => exact .inr rfl

theorem Leading.bind (first : Leading reader) (second : ∀ value, Leading (next value)) :
    Leading (reader >>= next) where
  leads := by
    intro context start later value rest read
    obtain ⟨found, behind, readFirst, readNext⟩ := bind_eq_ok read
    rcases first.leads context start later found behind readFirst with rfl | leads
    · exact (second found).leads context start later value rest readNext
    · exact .inr leads
  sees := by
    intro context start start' later value rest same read
    obtain ⟨found, behind, readFirst, readNext⟩ := bind_eq_ok read
    rcases first.sees context start start' later found behind same readFirst with
      ⟨rfl, untouched⟩ | taken
    · rw [bind_ok untouched]
      exact (second found).sees context start start' later value rest same readNext
    · exact .inr ((bind_ok taken).trans readNext)

variable {context : Context} {start start' : Lexeme} {later rest : List Lexeme} {value : α}

theorem Leading.leads_start (leading : Leading reader) (advances : Advances reader)
    (read : reader context (start :: later) = .ok (value, rest)) : Leads start :=
  (leading.leads context start later value rest read).resolve_left (advances.rest_ne read)

theorem Leading.sees_start (leading : Leading reader) (advances : Advances reader)
    (read : reader context (start :: later) = .ok (value, rest))
    (same : start.token = start'.token) :
    reader context (start' :: later) = .ok (value, rest) :=
  (leading.sees context start start' later value rest same read).resolve_left fun untouched =>
    advances.rest_ne read untouched.1

/-- Behind a reader that advances anything may be read. -/
theorem Leading.advance (first : Leading reader) (advances : Advances reader) :
    Leading (reader >>= next) where
  leads := by
    intro context start later value rest read
    obtain ⟨found, behind, readFirst, _⟩ := bind_eq_ok read
    exact .inr (first.leads_start advances readFirst)
  sees := by
    intro context start start' later value rest same read
    obtain ⟨found, behind, readFirst, readNext⟩ := bind_eq_ok read
    exact .inr ((bind_ok (first.sees_start advances readFirst same)).trans readNext)

end Composition

/-! ## The readers behind a front -/

theorem leading_typeParams : Leading typeParams := by
  refine leading_of_follows (fun context next later value rest read => ?_)
    fun run => Respacing.follows_typeParams
  obtain ⟨found, behind, readSign, readParams⟩ := bind_eq_ok read
  rcases skip_eq_ok readSign with ⟨rfl, sign, whole, isSign⟩ | ⟨rfl, rfl, _⟩
  · obtain ⟨rfl, _⟩ := List.cons.inj whole
    exact .inr (leads_of_kind isSign (by decide))
  · obtain ⟨_, rfl⟩ := pure_eq_ok readParams
    exact .inl rfl

theorem leading_qualifiedName (expected : Expected) : Leading (qualifiedName expected) := by
  refine leading_of_follows (fun context next later value rest read => ?_)
    fun run => Respacing.follows_qualifiedName expected
  obtain ⟨first, behind, readFirst, _⟩ := bind_eq_ok read
  obtain ⟨whole, isWord⟩ := expectKind_eq_ok readFirst
  obtain ⟨rfl, _⟩ := List.cons.inj whole
  exact .inr (leads_of_kind isWord (by decide))

theorem typeAnnotations_leads {line rounds : Nat} {declared found : Option Nullness}
    {context : Context} {next : Lexeme} {later rest : List Lexeme}
    (read : typeAnnotations line rounds declared context (next :: later) = .ok (found, rest)) :
    rest = next :: later ∨ Leads next := by
  cases rounds with
  | zero =>
      obtain ⟨_, rfl⟩ := pure_eq_ok read
      exact .inl rfl
  | succ rounds =>
      obtain ⟨isSign, behind, readSign, readUse⟩ := bind_eq_ok read
      obtain ⟨rfl, same⟩ := isNext_eq_ok readSign
      cases isSign with
      | true => exact .inr (leads_of_kind (by simpa using same.symm) (by decide))
      | false =>
          obtain ⟨_, rfl⟩ := pure_eq_ok readUse
          exact .inl rfl

theorem leading_typeRef (declared : Option Nullness) : Leading (typeRef declared) := by
  refine leading_of_follows (fun context next later value rest read => .inr ?_)
    fun run => Respacing.follows_typeRef declared
  rw [typeRef, bind_ok (remaining_apply context _)] at read
  obtain ⟨line, _, readLine, read⟩ := bind_eq_ok read
  obtain ⟨rfl, rfl⟩ := Prod.mk.inj (Except.ok.inj readLine)
  rw [bind_ok (remaining_apply context _)] at read
  obtain ⟨found, behind, readMarks, read⟩ := bind_eq_ok read
  rcases typeAnnotations_leads readMarks with rfl | leads
  · obtain ⟨isWildcard, behind, readSign, read⟩ := bind_eq_ok read
    rcases skip_eq_ok readSign with ⟨rfl, sign, whole, isSign⟩ | ⟨rfl, rfl, _⟩
    · obtain ⟨rfl, _⟩ := List.cons.inj whole
      exact leads_of_kind isSign (by decide)
    · obtain ⟨name, behind, readName, _⟩ := bind_eq_ok read
      exact (leading_qualifiedName _).leads_start advances_qualifiedName readName
  · exact leads

theorem leading_classKind : Leading classKind := by
  refine leading_of_follows (fun context next later value rest read => .inr ?_)
    fun run => Respacing.follows_classKind
  have skipped : ∀ {word : String} {found : Bool} {behind : List Lexeme},
      skipWord? word context (next :: later) = .ok (found, behind) →
      Leads next ∨ (found = false ∧ behind = next :: later) := by
    intro word found behind readWord
    rcases skipWord_eq_ok readWord with ⟨_, first, whole, isWord⟩ | ⟨none, rfl, _⟩
    · obtain ⟨rfl, _⟩ := List.cons.inj whole
      exact .inl (leads_of_isWord isWord)
    · exact .inr ⟨none, rfl⟩
  obtain ⟨_, _, readWord, read⟩ := bind_eq_ok read
  rcases skipped readWord with leads | ⟨rfl, rfl⟩
  · exact leads
  obtain ⟨_, _, readWord, read⟩ := bind_eq_ok read
  rcases skipped readWord with leads | ⟨rfl, rfl⟩
  · exact leads
  obtain ⟨_, _, readWord, read⟩ := bind_eq_ok read
  rcases skipped readWord with leads | ⟨rfl, rfl⟩
  · exact leads
  rw [if_neg (by decide), bind_ok (remaining_apply context _)] at read
  match later with
  | [] => cases read
  | word :: later =>
      dsimp only at read
      split at read
      · next announced => exact leads_of_kind announced.1 (by decide)
      · cases read

theorem advances_classKind : Advances classKind := by
  refine .branch takes_of_skipWord careful_skipWord careful_pure ?_
  refine .branch takes_of_skipWord careful_skipWord careful_pure ?_
  refine .branch takes_of_skipWord careful_skipWord careful_pure ?_
  intro context lexemes kind rest read
  rw [bind_ok (remaining_apply context _)] at read
  match lexemes with
  | [] => cases read
  | [_] => cases read
  | sign :: word :: later =>
      dsimp only at read
      split at read
      · rw [bind_ok (continueWith_apply context _ later)] at read
        obtain ⟨_, rfl⟩ := pure_eq_ok read
        exact ⟨sign, [word], rfl⟩
      · cases read

/-! ## Bodies -/

theorem advances_constructorBody (front : Preamble) : Advances (constructorBody front) := by
  refine .behind careful_typeParams fun typeParams => advances_qualifiedName.bind fun name => ?_
  refine careful_parameters.bind fun parameters => careful_throwsClause.bind fun throws => ?_
  exact careful_expect.bind fun _ => careful_pure

theorem leading_constructorBody (front : Preamble) : Leading (constructorBody front) :=
  leading_typeParams.bind fun _ => (leading_qualifiedName _).advance advances_qualifiedName

theorem advances_methodBody (front : Preamble) : Advances (methodBody front) := by
  refine .behind careful_typeParams fun typeParams => advances_typeRef.bind fun returnType => ?_
  refine careful_identifier.bind fun name => careful_parameters.bind fun parameters => ?_
  refine careful_throwsClause.bind fun throws => careful_skipWord.bind fun found => ?_
  exact careful_valueClause fun defaultValue => careful_expect.bind fun _ => careful_pure

theorem leading_methodBody (front : Preamble) : Leading (methodBody front) :=
  leading_typeParams.bind fun _ => (leading_typeRef _).advance advances_typeRef

theorem advances_fieldBody (isEnumConstant : Bool) (front : Preamble) :
    Advances (fieldBody isEnumConstant front) := by
  refine advances_typeRef.bind fun type => careful_identifier.bind fun name => ?_
  refine careful_skip.bind fun found => careful_valueClause fun value => ?_
  exact careful_expect.bind fun _ => careful_pure

theorem leading_fieldBody (isEnumConstant : Bool) (front : Preamble) :
    Leading (fieldBody isEnumConstant front) :=
  (leading_typeRef _).advance advances_typeRef

theorem advances_memberBody (keyword : String) (line : Nat) (front : Preamble) :
    Advances (memberBody keyword line front) := by
  unfold memberBody
  split
  · exact (advances_constructorBody front).bind fun _ => careful_pure
  · exact (advances_methodBody front).bind fun _ => careful_pure
  · exact (advances_fieldBody false front).bind fun _ => careful_pure
  · exact (advances_fieldBody true front).bind fun _ => careful_pure
  · intro context lexemes value rest read
    cases read

theorem leading_memberBody (keyword : String) (line : Nat) (front : Preamble) :
    Leading (memberBody keyword line front) := by
  unfold memberBody
  split
  · exact (leading_constructorBody front).advance (advances_constructorBody front)
  · exact (leading_methodBody front).advance (advances_methodBody front)
  · exact (leading_fieldBody false front).advance (advances_fieldBody false front)
  · exact (leading_fieldBody true front).advance (advances_fieldBody true front)
  · constructor
    · intro context next later value rest read
      cases read
    · intro context next next' later value rest same read
      cases read

theorem advances_classHeadBody (line : Nat) (front : Preamble) :
    Advances (classHeadBody line front) := by
  refine advances_classKind.bind fun kind => careful_qualifiedName.bind fun name => ?_
  refine careful_typeParams.bind fun typeParams => ?_
  exact (careful_supertypeClauses kind).bind fun _ => careful_expect.bind fun _ => careful_pure

theorem leading_classHeadBody (line : Nat) (front : Preamble) :
    Leading (classHeadBody line front) :=
  leading_classKind.advance advances_classKind

/-! ## Fronts before a leading lexeme -/

/-- What may stand behind a front: nothing, or a lexeme that leads. -/
def LeadsOn (lexemes : List Lexeme) : Prop := ∀ next ∈ lexemes.head?, Leads next

theorem FrontItem.leadsOn (item : FrontItem) (rest : List Lexeme) :
    LeadsOn (item.lexemes ++ rest) := by
  intro next isNext
  cases item with
  | annotated use free =>
      obtain rfl := Option.some.inj isNext
      exact leads_of_kind use.isSign (by decide)
  | modifier use =>
      obtain rfl := Option.some.inj isNext
      exact leads_of_kind use.isWord (by decide)

theorem leadsOn_front {rest : List Lexeme} (leadsOn : LeadsOn rest) (front : List FrontItem) :
    LeadsOn (frontLexemes front ++ rest) := by
  cases front with
  | nil => exact leadsOn
  | cons item front =>
      rw [frontLexemes, List.flatMap_cons, List.append_assoc]
      exact item.leadsOn _

theorem LeadsOn.endsBefore {rest : List Lexeme} (leadsOn : LeadsOn rest) (use : AnnotationUse) :
    use.EndsBefore rest where
  noArguments _ next isNext := (leadsOn next isNext).kind_ne (by decide)
  noWord _ dot word later whole both := by
    subst whole
    exact (leadsOn dot rfl).kind_ne (by decide) both.1

/-- Any front ends before a lexeme that leads. -/
theorem LeadsOn.eachEnds {rest : List Lexeme} (leadsOn : LeadsOn rest) (front : List FrontItem) :
    EachEnds front rest :=
  fun _ use _ behind _ => (leadsOn_front leadsOn behind).endsBefore use

theorem LeadsOn.regapFirst {rest : List Lexeme} (leadsOn : LeadsOn rest) (gap : String) :
    LeadsOn (regapFirst gap rest) := by
  cases rest with
  | nil => exact leadsOn
  | cons first rest =>
      intro next isNext
      obtain rfl := Option.some.inj isNext
      exact leadsOn first rfl

theorem EndsFront.regapFirst {rest : List Lexeme} (ends : EndsFront rest) (gap : String) :
    EndsFront (regapFirst gap rest) := by
  cases rest with
  | nil => exact ends
  | cons first rest =>
      constructor
      · intro next isNext isWord
        obtain rfl := Option.some.inj isNext
        exact ends.noModifier first rfl isWord
      · intro next isNext isSign
        obtain rfl := Option.some.inj isNext
        exact ends.noAnnotation first rfl isSign

/-- A rearranged front says the same, whatever stands between its items. -/
theorem FrontOf.rearranged {found : Preamble} {lexemes rest : List Lexeme}
    {front front' regapped : List FrontItem} (isFront : FrontOf {} found lexemes front rest)
    (leadsOn : LeadsOn rest) (rearranges : Rearranges front front')
    (gaps : Regapped front' regapped) (gap : String) :
    FrontOf {} found (frontLexemes regapped ++ regapFirst gap rest) regapped
      (regapFirst gap rest) where
  whole := rfl
  modifiers := by
    rw [isFront.modifiers, foldl_apply_regapped gaps, rearranges.foldl_apply]
  nullness := by
    rw [nullnessMarks_regapped gaps]
    exact rearranges.settles isFront.nullness
  eachEnds := (leadsOn.regapFirst gap).eachEnds regapped
  ends := isFront.ends.regapFirst gap

end ApiCompat.Signature
