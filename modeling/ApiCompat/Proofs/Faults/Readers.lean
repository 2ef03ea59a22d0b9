import ApiCompat.Proofs.Signature.Gives
import ApiCompat.Proofs.Signature.SupertypeTakes

/-!
# What readers inside a block complain about

A reader of anything smaller than a block leaves a back part of the lexemes.
When it fails, it does not complain about an open block, the lexeme that it
names is one of those it was given, and where it found nothing it blames the
end of the text (`Careful`).
-/

set_option autoImplicit false

namespace ApiCompat.Signature

open Reader

/-- What a fault inside a block says about the lexemes that were left. -/
def Blames (context : Context) (lexemes : List Lexeme) (fault : Fault) : Prop :=
  match fault.reason with
  | .unexpected _ (some found) =>
      ∃ lexeme ∈ lexemes, lexeme.line = fault.line ∧ (lexeme.kind, lexeme.text) = found
  | .unexpected _ none => fault.line = context.endLine
  | .unterminatedPackage _ => False
  | .unterminatedClass _ => False
  | _ => True

theorem Blames.mono {context : Context} {rest lexemes : List Lexeme} {fault : Fault}
    (blames : Blames context rest fault) (suffix : rest <:+ lexemes) :
    Blames context lexemes fault := by
  unfold Blames at blames ⊢
  split at blames
  · obtain ⟨lexeme, member, named⟩ := blames
    exact ⟨lexeme, suffix.subset member, named⟩
  · exact blames
  · exact blames
  · exact blames
  · trivial

structure CarefulOn {α : Type} (lexemes : List Lexeme) (reader : Reader α) : Prop where
  leaves : ∀ context value rest, reader context lexemes = .ok (value, rest) → rest <:+ lexemes
  blames : ∀ context fault, reader context lexemes = .error fault → Blames context lexemes fault

def Careful {α : Type} (reader : Reader α) : Prop := ∀ lexemes, CarefulOn lexemes reader

variable {α β : Type}

/-! ## Composition -/

section Composition

variable {lexemes : List Lexeme} {reader : Reader α} {next : α → Reader β}

theorem CarefulOn.bind (first : CarefulOn lexemes reader)
    (second : ∀ value rest, rest <:+ lexemes → CarefulOn rest (next value)) :
    CarefulOn lexemes (reader >>= next) := by
  constructor
  · intro context value rest read
    obtain ⟨found, behind, readFirst, readNext⟩ := bind_eq_ok read
    have suffix := first.leaves context found behind readFirst
    exact ((second found behind suffix).leaves context value rest readNext).trans suffix
  · intro context fault failed
    cases readFirst : reader context lexemes with
    | error earlier =>
        rw [bind_error readFirst] at failed
        obtain rfl := Except.error.inj failed
        exact first.blames context earlier readFirst
    | ok found =>
        rw [bind_ok readFirst] at failed
        have suffix := first.leaves context found.1 found.2 readFirst
        exact ((second found.1 found.2 suffix).blames context fault failed).mono suffix

theorem Careful.bind (first : Careful reader) (second : ∀ value, Careful (next value)) :
    Careful (reader >>= next) :=
  fun lexemes => (first lexemes).bind fun value rest _ => second value rest

theorem careful_pure {value : α} : Careful (pure value : Reader α) := by
  refine fun lexemes => ⟨fun context found rest read => ?_, fun context fault failed => ?_⟩
  · obtain ⟨_, rfl⟩ := pure_eq_ok read
    exact List.suffix_rfl
  · cases failed

theorem Careful.ite {condition : Prop} [Decidable condition] {yes no : Reader α}
    (first : Careful yes) (second : Careful no) : Careful (if condition then yes else no) := by
  split
  · exact first
  · exact second

/-- A reader that looks ahead is careful if it is on what it sees. -/
theorem careful_remaining {next : List Lexeme → Reader β}
    (each : ∀ lexemes, CarefulOn lexemes (next lexemes)) : Careful (remaining >>= next) := by
  intro lexemes
  have same : ∀ context, (remaining >>= next) context lexemes = next lexemes context lexemes :=
    fun context => bind_ok (remaining_apply context lexemes)
  refine ⟨fun context value rest read => ?_, fun context fault failed => ?_⟩
  · exact (each lexemes).leaves context value rest ((same context).symm.trans read)
  · exact (each lexemes).blames context fault ((same context).symm.trans failed)

theorem carefulOn_continueWith {back : List Lexeme} (suffix : back <:+ lexemes)
    {next : Unit → Reader β} (behind : CarefulOn back (next ())) :
    CarefulOn lexemes (continueWith back >>= next) := by
  have same : ∀ context, (continueWith back >>= next) context lexemes = next () context back :=
    fun context => bind_ok (continueWith_apply context lexemes back)
  refine ⟨fun context value rest read => ?_, fun context fault failed => ?_⟩
  · exact (behind.leaves context value rest ((same context).symm.trans read)).trans suffix
  · exact (behind.blames context fault ((same context).symm.trans failed)).mono suffix

end Composition

theorem careful_failAt {line : Nat} {reason : Reason}
    (plain : ∀ context lexemes, Blames context lexemes { line, reason }) :
    Careful (failAt line reason : Reader α) := by
  refine fun lexemes => ⟨fun context value rest read => ?_, fun context fault failed => ?_⟩
  · cases read
  · obtain rfl := Except.error.inj failed
    exact plain context lexemes

theorem careful_unexpected {expected : Expected} : Careful (unexpected expected : Reader α) := by
  refine fun lexemes => ⟨fun context value rest read => ?_, fun context fault failed => ?_⟩
  · cases lexemes <;> cases read
  · cases lexemes with
    | nil =>
        obtain rfl := Except.error.inj failed
        exact rfl
    | cons next rest =>
        obtain rfl := Except.error.inj failed
        exact ⟨next, List.mem_cons_self, rfl, rfl⟩

/-! ## Single lexemes -/

theorem careful_context : Careful context :=
  fun _ => ⟨fun _ _ _ read => by cases read; exact List.suffix_rfl,
    fun _ _ failed => by cases failed⟩

theorem careful_currentLine : Careful currentLine := by
  refine fun lexemes => ⟨fun context value rest read => ?_, fun context fault failed => ?_⟩
  · cases lexemes <;> cases read <;> exact List.suffix_rfl
  · cases lexemes <;> cases failed

theorem careful_takeIf {test : Lexeme → Bool} : Careful (takeIf? test) := by
  refine fun lexemes => ⟨fun context value rest read => ?_, fun context fault failed => ?_⟩
  · rcases takeIf_eq_ok read with ⟨lexeme, _, rfl, _⟩ | ⟨_, rfl, _⟩
    · exact List.suffix_cons _ _
    · exact List.suffix_rfl
  · cases lexemes with
    | nil => cases failed
    | cons next rest =>
        unfold takeIf? at failed
        dsimp only at failed
        split at failed <;> cases failed

theorem careful_skip {kind : TokenKind} : Careful (skip? kind) :=
  careful_takeIf.bind fun _ => careful_pure

theorem careful_skipWord {word : String} : Careful (skipWord? word) :=
  careful_takeIf.bind fun _ => careful_pure

theorem careful_expectKind {kind : TokenKind} {expected : Expected} :
    Careful (expectKind kind expected) := by
  refine careful_takeIf.bind fun found => ?_
  cases found with
  | some lexeme => exact careful_pure
  | none => exact careful_unexpected

theorem careful_expect {kind : TokenKind} : Careful (expect kind) := careful_expectKind

theorem careful_identifier {expected : Expected} : Careful (identifier expected) :=
  careful_expectKind

theorem careful_isNext {kind : TokenKind} : Careful (isNext kind) :=
  careful_remaining fun _ => careful_pure _

/-- A choice between two readers by whether a lexeme comes next. -/
theorem Careful.branch {test : Reader Bool} {yes no : Reader α} (first : Careful test)
    (second : Careful yes) (third : Careful no) :
    Careful (test >>= fun found => if found = true then yes else no) :=
  first.bind fun _ => second.ite third

/-! ## Lists and names -/

theorem careful_separatedRest {item : Reader α} (careful : Careful item) (separator : TokenKind)
    (rounds : Nat) : Careful (separatedRest separator item rounds) := by
  induction rounds with
  | zero => exact careful_pure
  | succ rounds ih =>
      refine careful_skip.branch ?_ careful_pure
      exact careful.bind fun _ => ih.bind fun _ => careful_pure

theorem careful_separated {item : Reader α} (careful : Careful item) (separator : TokenKind) :
    Careful (separated separator item) := by
  refine careful.bind fun _ => careful_remaining fun lexemes => ?_
  have later := careful_separatedRest careful separator lexemes.length
  exact (later.bind fun _ => careful_pure) lexemes

theorem careful_qualifiedName {expected : Expected} : Careful (qualifiedName expected) := by
  refine careful_identifier.bind fun first => careful_remaining fun lexemes => ?_
  exact carefulOn_continueWith (splitDotted_spec lexemes).2 (careful_pure _)

/-! ## Annotations -/

theorem careful_annotationArguments : Careful annotationArguments := by
  refine careful_isNext.branch ?_ careful_pure
  refine careful_currentLine.bind fun line => careful_remaining fun lexemes => ?_
  split
  · refine careful_failAt ?_ lexemes
    exact fun _ _ => trivial
  · next taken rest found =>
      have suffix : rest <:+ lexemes :=
        (splitArguments_follow found).1 ▸ List.suffix_append taken rest
      exact carefulOn_continueWith suffix (careful_pure rest)

theorem careful_withSource {reader : Reader α} (careful : Careful reader) :
    Careful (withSource reader) := by
  refine careful_remaining fun before => ?_
  exact (careful.bind fun _ => careful_remaining fun _ => careful_pure _) before

theorem careful_annotationUse : Careful annotationUse := by
  refine careful_withSource (careful_expect.bind fun _ => careful_qualifiedName.bind fun _ => ?_)
  exact careful_annotationArguments.bind fun _ => careful_pure

theorem careful_mergeNullness {declared : Option Nullness} {incoming : Nullness} {line : Nat} :
    Careful (mergeNullness declared incoming line) := by
  cases declared with
  | none => exact careful_pure
  | some nullness => exact careful_pure.ite (careful_failAt fun _ _ => trivial)

theorem careful_typeAnnotations (line rounds : Nat) {declared : Option Nullness} :
    Careful (typeAnnotations line rounds declared) := by
  induction rounds generalizing declared with
  | zero => exact careful_pure
  | succ rounds ih =>
      refine careful_isNext.branch ?_ careful_pure
      refine careful_annotationUse.bind fun use => ?_
      dsimp only
      split
      · exact careful_mergeNullness.bind fun _ => ih
      · exact ih

/-! ## Types -/

theorem careful_nullnessSuffix : Careful nullnessSuffix :=
  careful_skip.branch careful_pure (careful_skip.branch careful_pure careful_pure)

theorem careful_arrayDims (rounds : Nat) : Careful (arrayDims rounds) := by
  induction rounds with
  | zero => exact careful_pure
  | succ rounds ih =>
      refine careful_skip.branch ?_ careful_pure
      exact careful_expect.bind fun _ => ih.bind fun _ => careful_pure

theorem careful_settleNullness {line : Nat} {declared suffix : Option Nullness} :
    Careful (settleNullness line declared suffix) := by
  cases declared <;> cases suffix
  case none.none => exact careful_context.bind fun _ => careful_pure
  case none.some => exact careful_pure
  case some.none => exact careful_pure
  case some.some => exact careful_pure.ite (careful_failAt fun _ _ => trivial)

theorem careful_wildcardBound {type : Reader TypeRef} (careful : Careful type) :
    Careful (wildcardBound type) := by
  have bounded : ∀ wrap : TypeRef → Bound TypeRef,
      Careful (type >>= fun found => pure (wrap found)) :=
    fun _ => careful.bind fun _ => careful_pure
  exact careful_skipWord.branch (bounded _) (careful_skipWord.branch (bounded _) careful_pure)

theorem careful_typeArguments {type : Reader TypeRef} (careful : Careful type) :
    Careful (typeArguments type) := by
  refine careful_skip.branch ?_ careful_pure
  exact (careful_separated careful .comma).bind fun _ => careful_expect.bind fun _ => careful_pure

theorem careful_typeWithin (depth : Nat) {declared : Option Nullness} :
    Careful (typeWithin depth declared) := by
  induction depth generalizing declared with
  | zero => exact careful_unexpected
  | succ depth ih =>
      refine careful_currentLine.bind fun line => careful_remaining fun lexemes => ?_
      refine ((careful_typeAnnotations line lexemes.length).bind fun declared => ?_) lexemes
      refine careful_skip.branch ?_ ?_
      · exact (careful_wildcardBound ih).bind fun _ => careful_pure
      · refine careful_qualifiedName.bind fun name => ?_
        refine (careful_typeArguments ih).bind fun args => ?_
        refine careful_nullnessSuffix.bind fun inner => careful_remaining fun behind => ?_
        refine ((careful_arrayDims behind.length).bind fun dims => ?_) behind
        refine careful_skip.bind fun varargs => careful_nullnessSuffix.bind fun outer => ?_
        exact careful_settleNullness.bind fun _ => careful_pure

theorem careful_typeRef {declared : Option Nullness} : Careful (typeRef declared) :=
  careful_remaining fun lexemes => careful_typeWithin lexemes.length lexemes

theorem careful_plainType : Careful plainType := careful_typeRef

theorem careful_typeParam : Careful typeParam := by
  refine careful_identifier.bind fun name => careful_skipWord.branch ?_ careful_pure
  exact (careful_separated careful_plainType .ampersand).bind fun _ => careful_pure

theorem careful_typeParams : Careful typeParams := by
  refine careful_skip.branch ?_ careful_pure
  exact (careful_separated careful_typeParam .comma).bind fun _ =>
    careful_expect.bind fun _ => careful_pure

/-! ## Members -/

theorem careful_preambleFrom (rounds : Nat) {sofar : Preamble} :
    Careful (preambleFrom rounds sofar) := by
  induction rounds generalizing sofar with
  | zero => exact careful_pure
  | succ rounds ih =>
      refine careful_remaining fun lexemes => ?_
      cases lexemes with
      | nil => exact careful_pure _
      | cons next rest =>
          dsimp only
          split
          · split
            · exact careful_pure _
            · refine (careful_annotationUse.bind fun use => ?_) _
              split
              · exact careful_mergeNullness.bind fun _ => ih
              · exact ih
          · split
            · split
              · exact carefulOn_continueWith (List.suffix_cons _ _) (ih rest)
              · exact careful_pure _
            · exact careful_pure _

theorem careful_preamble : Careful preamble :=
  careful_remaining fun lexemes => careful_preambleFrom lexemes.length lexemes

theorem careful_parameter : Careful parameter :=
  careful_plainType.bind fun _ => careful_takeIf.bind fun _ => careful_pure

theorem careful_parameters : Careful parameters := by
  refine careful_expect.bind fun _ => careful_skip.branch careful_pure ?_
  exact (careful_separated careful_parameter .comma).bind fun _ =>
    careful_expect.bind fun _ => careful_pure

theorem careful_throwsClause : Careful throwsClause :=
  careful_skipWord.branch (careful_separated careful_plainType .comma) careful_pure

theorem careful_rawValue : Careful rawValue := by
  refine careful_remaining fun lexemes => ?_
  show CarefulOn lexemes
    (if (lexemes.takeWhile fun lexeme => !isSemicolon lexeme).isEmpty = true then _ else _)
  split
  · exact careful_unexpected lexemes
  · refine carefulOn_continueWith (List.dropWhile_suffix _) ?_
    exact (careful_remaining fun _ => (careful_unexpected.ite careful_pure) _) _

/-- What is read of a member from the sign of its value on. -/
theorem careful_valueClause {found : Bool} {next : Option String → Reader α}
    (careful : ∀ value, Careful (next value)) :
    Careful (if found = true then (some <$> rawValue) >>= next else (pure none) >>= next) := by
  refine Careful.ite ?_ (careful_pure.bind careful)
  exact (careful_rawValue.bind fun _ => careful_pure).bind careful

theorem careful_constructor : Careful constructor := by
  refine careful_preamble.bind fun front => careful_typeParams.bind fun typeParams => ?_
  refine careful_qualifiedName.bind fun name => careful_parameters.bind fun parameters => ?_
  exact careful_throwsClause.bind fun _ => careful_expect.bind fun _ => careful_pure

theorem careful_method : Careful method := by
  refine careful_preamble.bind fun front => careful_typeParams.bind fun typeParams => ?_
  refine careful_typeRef.bind fun returnType => careful_identifier.bind fun name => ?_
  refine careful_parameters.bind fun parameters => careful_throwsClause.bind fun throws => ?_
  refine careful_skipWord.bind fun found => careful_valueClause fun defaultValue => ?_
  exact careful_expect.bind fun _ => careful_pure

theorem careful_field {isEnumConstant : Bool} : Careful (field isEnumConstant) := by
  refine careful_preamble.bind fun front => careful_typeRef.bind fun type => ?_
  refine careful_identifier.bind fun name => careful_skip.bind fun found => ?_
  exact careful_valueClause fun value => careful_expect.bind fun _ => careful_pure

theorem careful_member : Careful member := by
  refine careful_identifier.bind fun keyword => ?_
  dsimp only
  split
  · exact careful_constructor.bind fun _ => careful_pure
  · exact careful_method.bind fun _ => careful_pure
  · exact careful_field.bind fun _ => careful_pure
  · exact careful_field.bind fun _ => careful_pure
  · exact careful_failAt fun _ _ => trivial

/-! ## Heads of classes -/

theorem careful_classKind : Careful classKind := by
  refine careful_skipWord.branch careful_pure (careful_skipWord.branch careful_pure ?_)
  refine careful_skipWord.branch careful_pure (careful_remaining fun lexemes => ?_)
  match lexemes with
  | [] => exact careful_unexpected _
  | [_] => exact careful_unexpected _
  | sign :: word :: rest =>
      dsimp only
      split
      · exact carefulOn_continueWith ((List.suffix_cons _ _).trans (List.suffix_cons _ _))
          (careful_pure rest)
      · exact careful_unexpected _

theorem careful_typeListRest (rounds : Nat) : Careful (typeListRest rounds) := by
  induction rounds with
  | zero => exact careful_pure
  | succ rounds ih =>
      refine careful_skip.bind fun _ => careful_remaining fun lexemes => ?_
      split
      · exact careful_pure lexemes
      · refine (Careful.ite careful_pure ?_) lexemes
        exact careful_plainType.bind fun _ => ih.bind fun _ => careful_pure

theorem careful_typeList : Careful typeList := by
  refine careful_plainType.bind fun first => careful_remaining fun lexemes => ?_
  exact ((careful_typeListRest lexemes.length).bind fun _ => careful_pure) lexemes

theorem careful_extendsClause (kind : ClassKind) : Careful (extendsClause kind) := by
  refine careful_skipWord.branch (Careful.ite ?_ ?_) careful_pure
  · exact careful_typeList.bind fun _ => careful_pure
  · exact careful_plainType.bind fun _ => careful_pure

theorem careful_supertypeClauses (kind : ClassKind) : Careful (supertypeClauses kind) := by
  rw [supertypeClauses_eq]
  refine (careful_extendsClause kind).bind fun found => ?_
  exact (careful_skipWord.branch careful_typeList careful_pure).bind fun _ => careful_pure

end ApiCompat.Signature
