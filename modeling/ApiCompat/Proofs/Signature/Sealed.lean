import ApiCompat.Proofs.Signature.Local
import ApiCompat.Proofs.Signature.Places
import ApiCompat.Proofs.Signature.Refront

/-!
# Readings that nothing behind them changes

A member ends with its semicolon, a class and a block with their braces.  What
stands behind is not seen (`Sealed`), so another text may stand there.  If one
declaration is written in another way, those before it are read as they were,
and so a text can be changed at the place of a class or of a member
(`ClassPlace.replace`, `MemberPlace.replace`).
-/

set_option autoImplicit false

namespace ApiCompat.Signature

open Reader

/-! ## Fronts and clauses look ahead by one lexeme -/

theorem FrontOf.glimpse {found : Preamble} {lexemes rest rest' : List Lexeme} {next : Lexeme}
    {front : List FrontItem} (isFront : FrontOf {} found lexemes front (next :: rest))
    (glimpse : Glimpse next rest rest') :
    FrontOf {} found (frontLexemes front ++ next :: rest') front (next :: rest') where
  whole := rfl
  modifiers := isFront.modifiers
  nullness := isFront.nullness
  eachEnds := by
    intro before use free behind whole
    have ends := isFront.eachEnds before use free behind whole
    cases shape : frontLexemes behind with
    | nil =>
        rw [shape] at ends
        exact ends.glimpse glimpse
    | cons start more =>
        rw [shape] at ends
        refine ends.glimpse fun _ => ?_
        cases more <;> rfl
  ends :=
    { noModifier := isFront.ends.noModifier
      noAnnotation := by
        intro sign isNext isSign
        obtain rfl := Option.some.inj isNext
        have announced := isFront.ends.noAnnotation next rfl isSign
        rw [List.tail_cons, glimpse (.inr isSign)] at announced
        exact announced }

theorem local_preamble : Local preamble := by
  intro bound bound' context lexemes found next rest _ read
  obtain ⟨front, isFront⟩ := preamble_eq_ok_iff.mp read
  exact ⟨frontLexemes front, isFront.whole, fun rest' glimpse _ =>
    preamble_eq_ok_iff.mpr ⟨front, isFront.glimpse glimpse⟩⟩

theorem local_parameter : Local parameter := fun _ _ =>
  (local_plainType _ _).bind fun _ => (local_takeIf _ _ _).bind fun _ => local_pure _ _ _

theorem local_parameters : Local parameters := by
  refine fun _ _ => (local_expectKind _ _ _ _).bind fun _ => ?_
  refine .branch (local_skip .rightParen) (local_pure _ _ _) ?_
  refine (localTo_separated .comma careful_parameter (local_parameter _ _)).bind fun _ => ?_
  exact (local_expectKind _ _ _ _).bind fun _ => local_pure _ _ _

theorem local_throwsClause : Local throwsClause := fun _ _ =>
  .branch (local_skipWord "throws")
    (localTo_separated .comma careful_plainType (local_plainType _ _)) (local_pure _ _ _)

/-- A value goes up to the first semicolon. -/
theorem local_rawValue : Local rawValue := by
  intro bound bound' context lexemes text next rest _ read
  obtain ⟨taken, semicolon, behind, whole, filled, _, plain, same, ends, rfl⟩ :=
    rawValue_eq_ok read
  obtain ⟨rfl, rfl⟩ := List.cons.inj same
  refine ⟨taken, whole, fun rest' _ _ => ?_⟩
  have before : (taken ++ next :: rest').takeWhile (fun lexeme => !isSemicolon lexeme) = taken := by
    rw [List.takeWhile_append_of_pos (by simpa [isSemicolon] using plain)]
    simp [isSemicolon, ends]
  have after : (taken ++ next :: rest').dropWhile (fun lexeme => !isSemicolon lexeme) =
      next :: rest' := by
    rw [List.dropWhile_append_of_pos (by simpa [isSemicolon] using plain)]
    simp [isSemicolon, ends]
  rw [rawValue, bind_ok (remaining_apply context _), before, after,
    if_neg (by simpa using filled), bind_ok (continueWith_apply context _ _),
    bind_ok (remaining_apply context _)]
  rfl

theorem local_classKind : Local classKind := by
  refine fun _ _ => .branch (local_skipWord "class") (local_pure _ _ _) ?_
  refine .branch (local_skipWord "interface") (local_pure _ _ _) ?_
  refine .branch (local_skipWord "enum") (local_pure _ _ _) ?_
  intro context lexemes kind next rest _ read
  rw [bind_ok (remaining_apply context lexemes)] at read
  match lexemes with
  | [] => cases read
  | [_] => cases read
  | sign :: word :: behind =>
      dsimp only at read
      split at read
      · next announced =>
          rw [bind_ok (continueWith_apply context _ behind)] at read
          obtain ⟨rfl, rfl⟩ := pure_eq_ok read
          refine ⟨[sign, word], rfl, fun rest' _ _ => ?_⟩
          show (if sign.kind = .atSign ∧ word.text = "interface" then _ else _ : Reader _) _ _ = _
          rw [if_pos announced, bind_ok (continueWith_apply context _ _)]
          rfl
      · cases read

def typesBehind (rounds : Nat) (head : Option Lexeme) : Reader (List TypeRef) :=
  match head with
  | none => return []
  | some next =>
      if next.kind = .leftBrace || next.isWord "implements" then return []
      else do
        let first ← plainType
        let later ← typeListRest rounds
        return first :: later

theorem localTo_typeListRest (rounds rounds' : Nat) :
    LocalTo rounds rounds' (typeListRest rounds) (typeListRest rounds') := by
  induction rounds generalizing rounds' with
  | zero => exact localTo_zero (careful_typeListRest 0)
  | succ rounds ih =>
      cases rounds' with
      | zero => exact localTo_nothing (careful_typeListRest (rounds + 1))
      | succ rounds' =>
          have looks : ∀ head, LocalTo (rounds + 1) (rounds' + 1) (typesBehind rounds head)
              (typesBehind rounds' head) := by
            intro head
            cases head with
            | none => exact local_pure _ _ _
            | some next =>
                refine .ite (local_pure _ _ _) ?_
                refine (local_plainType _ _).advance advances_plainType fun _ => ?_
                exact (ih rounds').bind fun _ => local_pure _ _ _
          exact (local_skip .comma _ _).bind fun _ => localTo_peek looks

theorem local_typeList : Local typeList := by
  refine fun _ _ => (local_plainType _ _).bind fun _ => ?_
  refine localTo_remaining fun lexemes lexemes' _ _ => ?_
  exact (localTo_typeListRest lexemes.length lexemes'.length).bind fun _ => local_pure _ _ _

theorem local_extendsClause (kind : ClassKind) : Local (extendsClause kind) := by
  refine fun _ _ => .branch (local_skipWord "extends") (.ite ?_ ?_) (local_pure _ _ _)
  · exact (local_typeList _ _).bind fun _ => local_pure _ _ _
  · exact (local_plainType _ _).bind fun _ => local_pure _ _ _

theorem local_supertypeClauses (kind : ClassKind) : Local (supertypeClauses kind) := by
  rw [supertypeClauses_eq]
  refine fun _ _ => (local_extendsClause kind _ _).bind fun found => ?_
  have implemented : Local implementsClause := fun _ _ =>
    .branch (local_skipWord "implements") (local_typeList _ _) (local_pure _ _ _)
  exact (implemented _ _).bind fun _ => local_pure _ _ _

/-! ## Sealed readings -/

/-- The reading ends with a lexeme that nothing continues, and what stands behind it is not seen. -/
def Sealed {τ : Type} (reads : List Lexeme → τ → List Lexeme → Prop) : Prop :=
  ∀ lexemes value rest, reads lexemes value rest →
    ∃ front last, lexemes = front ++ last :: rest ∧ last.kind ≠ .dot ∧ last.kind ≠ .atSign ∧
      ∀ rest', reads (front ++ last :: rest') value rest'

abbrev Seals {α : Type} (reader : Reader α) : Prop := ∀ context, Sealed (ReadBy context reader)

section Composition

variable {α β : Type} {reader : Reader α} {next : α → Reader β}

theorem Local.again (isLocal : Local reader) {context : Context} {lexemes rest : List Lexeme}
    {value : α} {start : Lexeme} (read : reader context lexemes = .ok (value, start :: rest)) :
    ∃ taken, lexemes = taken ++ start :: rest ∧ ∀ rest', Glimpse start rest rest' →
      reader context (taken ++ start :: rest') = .ok (value, start :: rest') := by
  obtain ⟨taken, whole, _⟩ :=
    isLocal lexemes.length 0 context lexemes value start rest (Nat.le_refl _) read
  refine ⟨taken, whole, fun rest' glimpse => ?_⟩
  obtain ⟨taken', whole', again⟩ := isLocal lexemes.length (taken ++ start :: rest').length context
    lexemes value start rest (Nat.le_refl _) read
  obtain rfl := List.append_cancel_right (whole.symm.trans whole')
  exact again rest' glimpse (Nat.le_refl _)

/-- What is left is taken by the second reader, so the first one sees none of the others. -/
theorem Seals.bind (first : Local reader) (second : ∀ value, Seals (next value)) :
    Seals (reader >>= next) := by
  intro context lexemes value rest read
  obtain ⟨found, behind, readFirst, readNext⟩ := bind_eq_ok read
  obtain ⟨front, last, rfl, notDot, notSign, againNext⟩ :=
    second found context behind value rest readNext
  obtain ⟨taken, rfl, againFirst⟩ : ∃ taken, lexemes = taken ++ (front ++ last :: rest) ∧
      ∀ rest', reader context (taken ++ (front ++ last :: rest')) =
        .ok (found, front ++ last :: rest') := by
    cases front with
    | nil =>
        obtain ⟨taken, whole, again⟩ := first.again readFirst
        refine ⟨taken, whole, fun rest' => again rest' ?_⟩
        rintro (isDot | isSign)
        · exact absurd isDot notDot
        · exact absurd isSign notSign
    | cons start front =>
        obtain ⟨taken, whole, again⟩ := first.again readFirst
        refine ⟨taken, whole, fun rest' => again (front ++ last :: rest') fun _ => ?_⟩
        cases front <;> rfl
  refine ⟨taken ++ front, last, by rw [List.append_assoc], notDot, notSign, fun rest' => ?_⟩
  rw [List.append_assoc]
  exact (bind_ok (againFirst rest')).trans (againNext rest')

theorem Seals.map (seals : Seals reader) (result : α → β) :
    Seals (reader >>= fun value => pure (result value)) := by
  intro context lexemes value rest read
  obtain ⟨found, behind, readFirst, same⟩ := bind_eq_ok read
  obtain ⟨rfl, rfl⟩ := pure_eq_ok same
  obtain ⟨front, last, whole, notDot, notSign, again⟩ :=
    seals context lexemes found behind readFirst
  refine ⟨front, last, whole, notDot, notSign, fun rest' => ?_⟩
  exact bind_ok (again rest')

theorem seals_fails (fails : ∀ context lexemes, ∃ fault, reader context lexemes = .error fault) :
    Seals reader := by
  intro context lexemes value rest read
  obtain ⟨fault, failed⟩ := fails context lexemes
  exact absurd (failed.symm.trans read) nofun

end Composition

theorem seals_expectKind {kind : TokenKind} {expected : Expected} (notDot : kind ≠ .dot)
    (notSign : kind ≠ .atSign) : Seals (expectKind kind expected) := by
  intro context lexemes lexeme rest read
  obtain ⟨rfl, rfl⟩ := expectKind_eq_ok read
  exact ⟨[], lexeme, rfl, notDot, notSign, fun rest' => expectKind_here rfl expected context rest'⟩

/-! ## Members, heads and classes -/

theorem seals_semicolon {α : Type} (result : Lexeme → α) :
    Seals (expect .semicolon >>= fun lexeme => pure (result lexeme)) :=
  (seals_expectKind (by decide) (by decide)).map result

theorem seals_brace {α : Type} (result : Lexeme → α) :
    Seals (expect .leftBrace >>= fun lexeme => pure (result lexeme)) :=
  (seals_expectKind (by decide) (by decide)).map result

theorem seals_valueClause {α : Type} {found : Bool} {next : Option String → Reader α}
    (seals : ∀ value, Seals (next value)) :
    Seals (if found = true then (some <$> rawValue) >>= next else pure none >>= next) := by
  cases found with
  | false => exact seals none
  | true =>
      have value : Local (some <$> rawValue) := fun _ _ =>
        (local_rawValue _ _).bind fun _ => local_pure _ _ _
      exact Seals.bind value seals

theorem seals_constructorBody (front : Preamble) : Seals (constructorBody front) := by
  refine Seals.bind local_typeParams fun typeParams => ?_
  refine Seals.bind (local_qualifiedName _) fun name => ?_
  refine Seals.bind local_parameters fun parameters => ?_
  exact Seals.bind local_throwsClause fun throws => seals_semicolon _

theorem seals_methodBody (front : Preamble) : Seals (methodBody front) := by
  refine Seals.bind local_typeParams fun typeParams => ?_
  refine Seals.bind (local_typeRef _) fun returnType => ?_
  refine Seals.bind (local_expectKind _ _) fun name => ?_
  refine Seals.bind local_parameters fun parameters => ?_
  refine Seals.bind local_throwsClause fun throws => ?_
  refine Seals.bind (local_skipWord "default") fun found => ?_
  exact seals_valueClause fun defaultValue => seals_semicolon _

theorem seals_fieldBody (isEnumConstant : Bool) (front : Preamble) :
    Seals (fieldBody isEnumConstant front) := by
  refine Seals.bind (local_typeRef _) fun type => ?_
  refine Seals.bind (local_expectKind _ _) fun name => ?_
  refine Seals.bind (local_skip .equals) fun found => ?_
  exact seals_valueClause fun value => seals_semicolon _

theorem seals_memberBody (keyword : String) (line : Nat) (front : Preamble) :
    Seals (memberBody keyword line front) := by
  unfold memberBody
  split
  · exact (seals_constructorBody front).map _
  · exact (seals_methodBody front).map _
  · exact (seals_fieldBody false front).map _
  · exact (seals_fieldBody true front).map _
  · exact seals_fails fun _ _ => ⟨_, rfl⟩

theorem seals_member : Seals member := by
  rw [member_eq_behind]
  refine Seals.bind (local_expectKind _ _) fun keyword => ?_
  rcases memberBehind_eq keyword.text keyword.line with known | unknown
  · rw [known]
    exact Seals.bind local_preamble fun front => seals_memberBody _ _ front
  · rw [unknown]
    exact seals_fails fun _ _ => ⟨_, rfl⟩

theorem seals_classHead : Seals classHead := by
  refine Seals.bind local_currentLine fun line => Seals.bind local_preamble fun front => ?_
  refine Seals.bind local_classKind fun kind => Seals.bind (local_qualifiedName _) fun name => ?_
  refine Seals.bind local_typeParams fun typeParams => ?_
  exact Seals.bind (local_supertypeClauses kind) fun supertypes => seals_brace _

theorem seals_packageHead : Seals packageHead := by
  refine Seals.bind local_currentLine fun line => ?_
  refine Seals.bind (local_skipWord "package") fun found => ?_
  cases found with
  | true => exact Seals.bind (local_qualifiedName _) fun name => seals_brace _
  | false =>
      refine seals_fails fun _ lexemes => ?_
      cases lexemes <;> exact ⟨_, rfl⟩

/-! ## Items in turn -/

section InTurn

variable {τ : Type} {reads : List Lexeme → τ → List Lexeme → Prop} {lexemes rest : List Lexeme}
  {values : List τ}

/-- Sealed items are read in turn whatever stands behind the last one. -/
theorem InTurn.again (inTurn : InTurn reads rest lexemes values) (areSealed : Sealed reads) :
    ∃ taken, lexemes = taken ++ rest ∧ ∀ rest', InTurn reads rest' (taken ++ rest') values := by
  induction inTurn with
  | done => exact ⟨[], rfl, fun rest' => .done⟩
  | @step first piece behind value values begins read later ih =>
      obtain ⟨taken, rfl, again⟩ := ih
      obtain ⟨front, last, whole, _, _, againFirst⟩ := areSealed _ _ _ read
      have joined : first :: piece ++ (taken ++ rest) = front ++ [last] ++ (taken ++ rest) := by
        rw [whole, List.append_assoc]
        rfl
      have shape : first :: piece = front ++ [last] := List.append_cancel_right joined
      refine ⟨first :: piece ++ taken, by rw [List.append_assoc], fun rest' => ?_⟩
      rw [List.append_assoc]
      refine .step begins ?_ (again rest')
      rw [shape, List.append_assoc]
      exact againFirst (taken ++ rest')

theorem InTurn.append {middle : List Lexeme} {later : List τ}
    (first : InTurn reads middle lexemes values) (second : InTurn reads rest middle later) :
    InTurn reads rest lexemes (values ++ later) := by
  induction first with
  | done => exact second
  | step begins read _ ih => exact .step begins read ih

end InTurn

theorem seals_classDecl (package : String) : Seals (classDecl package) := by
  intro context lexemes cls rest read
  obtain ⟨head, body, members, close, classRead⟩ := classDecl_eq_ok_iff.mp read
  obtain ⟨front, last, rfl, _, _, againHead⟩ := seals_classHead context _ _ _ classRead.readHead
  obtain ⟨taken, rfl, againMembers⟩ := classRead.inTurn.again (seals_member context)
  have isClose := classRead.isClose
  refine ⟨front ++ last :: taken, close, by simp, by simp [isClose], by simp [isClose],
    fun rest' => ?_⟩
  refine classDecl_eq_ok_iff.mpr ⟨head, taken ++ close :: rest', members, close, ?_⟩
  have whole : front ++ last :: taken ++ close :: rest' =
      front ++ last :: (taken ++ close :: rest') := by simp
  rw [whole]
  exact ⟨againHead _, isClose, againMembers _, classRead.stored⟩

theorem sealed_blockRead (context : Context) : Sealed (BlockRead context) := by
  intro lexemes block rest read
  obtain ⟨body, close, readHead, isClose, inTurn⟩ := read.parts
  obtain ⟨front, last, rfl, _, _, againHead⟩ := seals_packageHead context _ _ _ readHead
  obtain ⟨taken, rfl, againClasses⟩ := inTurn.again (seals_classDecl block.name context)
  refine ⟨front ++ last :: taken, close, by simp, by simp [isClose], by simp [isClose],
    fun rest' => ⟨taken ++ close :: rest', close, ?_, isClose, againClasses _⟩⟩
  have whole : front ++ last :: taken ++ close :: rest' =
      front ++ last :: (taken ++ close :: rest') := by simp
  rw [whole]
  exact againHead _

end ApiCompat.Signature
