import ApiCompat.Proofs.Api.Outline
import ApiCompat.Proofs.Respaced.Types

/-!
# Members see tokens only

The members that are read from both texts have one outline, and their verbatim
texts are quoted from the same tokens.  No decision depends on a verbatim text.
-/

set_option autoImplicit false

namespace ApiCompat

namespace Modifiers

theorem add_outline (modifiers : Modifiers) (word : ModifierWord) :
    (modifiers.add word).outline = modifiers.outline.add word ∧
      (modifiers.add word).annotations = modifiers.annotations := by
  cases word with
  | scope visibility => exact ⟨rfl, rfl⟩
  | flag flag => cases flag <;> exact ⟨rfl, rfl⟩

theorem annotate_outline (modifiers : Modifiers) (text : String) :
    (modifiers.annotate text).outline = modifiers.outline.annotate "" := by
  simp [annotate, outline, blank]

end Modifiers

namespace Signature.Respacing

open Reader

variable {run : Respacing} {rest rest' : List Lexeme} {α : Type}

/-- The things have one outline, and their verbatim texts are quoted one by one. -/
structure Alike (run : Respacing) {α β : Type} (outline : α → β) (verbatims : α → List String)
    (thing thing' : α) : Prop where
  same : outline thing = outline thing'
  quoted : List.Forall₂ run.Quoted (verbatims thing) (verbatims thing')

/-! ## What stands in front of a declaration -/

abbrev ModifiersAlike (run : Respacing) : Modifiers → Modifiers → Prop :=
  run.Alike Modifiers.outline Modifiers.annotations

structure FrontAlike (run : Respacing) (front front' : Preamble) : Prop where
  modifiers : run.ModifiersAlike front.modifiers front'.modifiers
  nullness : front.nullness = front'.nullness

theorem ModifiersAlike.applyWord {modifiers modifiers' : Modifiers}
    (alike : run.ModifiersAlike modifiers modifiers') (word : String) :
    Option.Rel run.ModifiersAlike (modifiers.applyWord? word) (modifiers'.applyWord? word) := by
  unfold Modifiers.applyWord?
  cases ModifierWord.ofWord? word with
  | none => exact .none
  | some word =>
      obtain ⟨outline, annotations⟩ := modifiers.add_outline word
      obtain ⟨outline', annotations'⟩ := modifiers'.add_outline word
      refine .some ⟨?_, ?_⟩
      · rw [outline, outline', alike.same]
      · rw [annotations, annotations']
        exact alike.quoted

theorem ModifiersAlike.annotate {modifiers modifiers' : Modifiers} {text text' : String}
    (alike : run.ModifiersAlike modifiers modifiers') (quoted : run.Quoted text text') :
    run.ModifiersAlike (modifiers.annotate text) (modifiers'.annotate text') where
  same := by rw [Modifiers.annotate_outline, Modifiers.annotate_outline, alike.same]
  quoted := List.rel_append alike.quoted (.cons quoted .nil)

theorem follows_preambleFrom (rounds : Nat) {sofar sofar' : Preamble}
    (alike : run.FrontAlike sofar sofar') :
    run.Follows run.FrontAlike (preambleFrom rounds sofar) (preambleFrom rounds sofar') := by
  induction rounds generalizing sofar sofar' with
  | zero => exact follows_pure alike
  | succ rounds ih =>
      refine follows_remaining.bind fun rest rest' beside => ?_
      rcases beside.cases with ⟨rfl, rfl⟩ | ⟨next, later, next', later', rfl, rfl, same, behind⟩
      · exact follows_pure alike
      -- An annotation, a modifier word, or the end of the preamble: the token tells which.
      have sameKind := kind_eq same
      have interface : later.head?.any (fun lexeme => lexeme.text == "interface") =
          later'.head?.any (fun lexeme => lexeme.text == "interface") :=
        any_head_eq (fun _ _ same => by rw [text_eq same]) behind
      refine .ite (by rw [sameKind]) (fun _ => ?_) fun _ => .ite (by rw [sameKind]) (fun _ => ?_)
        fun _ => follows_pure alike
      · refine .ite (by rw [interface]) (fun _ => follows_pure alike) fun _ => ?_
        refine follows_annotationUse.bind ?_
        rintro ⟨name, text⟩ ⟨_, text'⟩ ⟨rfl, quoted⟩
        dsimp only
        split
        · rw [← alike.nullness]
          refine (follows_mergeNullness sofar.nullness _ next.line next'.line).bind_same
            fun nullness => ?_
          exact ih ⟨alike.modifiers, rfl⟩
        · exact ih ⟨alike.modifiers.annotate quoted, alike.nullness⟩
      · have applied := alike.modifiers.applyWord next.text
        rw [← text_eq same]
        generalize sofar.modifiers.applyWord? next.text = word at applied
        generalize sofar'.modifiers.applyWord? next.text = word' at applied
        cases applied with
        | none => exact follows_pure alike
        | some modifiers =>
            refine (follows_continueWith behind).bind fun _ _ _ => ?_
            exact ih ⟨modifiers, alike.nullness⟩

theorem follows_preamble : run.Follows run.FrontAlike preamble preamble := by
  refine follows_remaining.bind fun rest rest' beside => ?_
  rw [beside.length_eq]
  exact follows_preambleFrom rest'.length ⟨⟨rfl, .nil⟩, rfl⟩

/-! ## Parts of members -/

theorem follows_parameter : run.Follows Eq parameter parameter := by
  refine follows_plainType.bind_same fun type => ?_
  refine (follows_takeIf (kind_respects .identifier)).bind fun name name' same => ?_
  cases same with
  | none => exact follows_pure rfl
  | some same =>
      refine follows_pure ?_
      rw [Option.map_some, Option.map_some, text_eq same]

theorem follows_parameters : run.Follows Eq parameters parameters := by
  refine (follows_expect .leftParen).bind fun _ _ _ => ?_
  refine (follows_skip .rightParen).branch (follows_pure rfl) ?_
  refine (follows_separated .comma follows_parameter).bind_same fun items => ?_
  refine (follows_expect .rightParen).bind fun _ _ _ => ?_
  exact follows_pure rfl

theorem follows_throwsClause : run.Follows Eq throwsClause throwsClause := by
  refine (follows_skipWord "throws").branch ?_ (follows_pure rfl)
  exact follows_separated .comma follows_plainType

/-- Up to the next semicolon there are as many lexemes in both texts. -/
theorem takeWhile_beside (beside : run.Beside rest rest') :
    ∃ count, (rest.takeWhile fun lexeme => !isSemicolon lexeme) = rest.take count ∧
      (rest'.takeWhile fun lexeme => !isSemicolon lexeme) = rest'.take count ∧
      (rest.dropWhile fun lexeme => !isSemicolon lexeme) = rest.drop count ∧
      (rest'.dropWhile fun lexeme => !isSemicolon lexeme) = rest'.drop count := by
  induction rest generalizing rest' with
  | nil =>
      obtain rfl := beside.nil
      exact ⟨0, rfl, rfl, rfl, rfl⟩
  | cons next later ih =>
      obtain ⟨next', later', rfl, same, behind⟩ := beside.cons
      have sameTest : isSemicolon next = isSemicolon next' := kind_respects .semicolon _ _ same
      cases stop : isSemicolon next with
      | true =>
          rw [stop] at sameTest
          exact ⟨0, by simp [stop], by simp [← sameTest], by simp [stop], by simp [← sameTest]⟩
      | false =>
          rw [stop] at sameTest
          obtain ⟨count, taken, taken', left, left'⟩ := ih behind
          exact ⟨count + 1, by simp [stop, taken], by simp [← sameTest, taken'],
            by simp [stop, left], by simp [← sameTest, left']⟩

theorem follows_rawValue : run.Follows run.Quoted rawValue rawValue := by
  refine follows_remaining.bind fun rest rest' beside => ?_
  obtain ⟨count, taken, taken', left, left'⟩ := takeWhile_beside beside
  rw [taken, taken', left, left']
  have empty : (rest.take count).isEmpty = (rest'.take count).isEmpty := by
    rw [Bool.eq_iff_iff, List.isEmpty_iff_length_eq_zero, List.isEmpty_iff_length_eq_zero,
      List.length_take, List.length_take, beside.length_eq]
  refine .ite (by rw [empty]) (fun _ => follows_unexpected .value) fun _ => ?_
  refine (follows_continueWith (beside.drop count)).bind fun _ _ _ => ?_
  refine follows_remaining.bind fun behind behind' ends => ?_
  refine .ite (by rw [isEmpty_eq ends]) (fun _ => follows_unexpected _) fun _ => ?_
  exact follows_pure (beside.quoted count)

/-- What is read of a member from its value on. -/
theorem follows_value {sign : Reader Bool} {next next' : Option String → Reader α}
    {related : α → α → Prop} (signs : run.Follows Eq sign sign)
    (later : ∀ value value', Option.Rel run.Quoted value value' →
      run.Follows related (next value) (next' value')) :
    run.Follows related
      (do
        let value ← if ← sign then some <$> rawValue else pure none
        next value)
      (do
        let value ← if ← sign then some <$> rawValue else pure none
        next' value) := by
  refine signs.branch ?_ (later none none .none)
  have value : run.Follows (Option.Rel run.Quoted) (some <$> rawValue) (some <$> rawValue) :=
    follows_rawValue.bind fun _ _ quoted => follows_pure (.some quoted)
  exact value.bind later

/-! ## Members -/

abbrev MemberAlike (run : Respacing) : Member → Member → Prop :=
  run.Alike Member.outline Member.verbatims

theorem quoted_value {value value' : Option String} (quoted : Option.Rel run.Quoted value value') :
    value.map blank = value'.map blank ∧
      List.Forall₂ run.Quoted value.toList value'.toList := by
  cases quoted with
  | none => exact ⟨rfl, .nil⟩
  | some quoted => exact ⟨rfl, .cons quoted .nil⟩

theorem follows_constructor :
    run.Follows (fun item item' => run.MemberAlike (.constructor item) (.constructor item'))
      constructor constructor := by
  refine follows_preamble.bind fun front front' alike => ?_
  refine follows_typeParams.bind_same fun typeParams => ?_
  refine (follows_qualifiedName .constructorName).bind_same fun name => ?_
  refine follows_parameters.bind_same fun parameters => ?_
  refine follows_throwsClause.bind_same fun throws => ?_
  refine (follows_expect .semicolon).bind fun _ _ _ => follows_pure ⟨?_, ?_⟩
  · simp only [Member.outline, alike.modifiers.same]
  · exact List.rel_append alike.modifiers.quoted .nil

theorem follows_method :
    run.Follows (fun item item' => run.MemberAlike (.method item) (.method item'))
      method method := by
  refine follows_preamble.bind fun front front' alike => ?_
  refine follows_typeParams.bind_same fun typeParams => ?_
  rw [alike.nullness]
  refine (follows_typeRef front'.nullness).bind_same fun returnType => ?_
  refine (follows_identifier .methodName).bind fun name name' same => ?_
  refine follows_parameters.bind_same fun parameters => ?_
  refine follows_throwsClause.bind_same fun throws => ?_
  refine follows_value (follows_skipWord "default") fun value value' quoted => ?_
  obtain ⟨blanks, quoted⟩ := quoted_value quoted
  refine (follows_expect .semicolon).bind fun _ _ _ => follows_pure ⟨?_, ?_⟩
  · simp only [Member.outline, alike.modifiers.same, text_eq same, blanks]
  · exact List.rel_append alike.modifiers.quoted quoted

theorem follows_field (isEnumConstant : Bool) :
    run.Follows (fun item item' => run.MemberAlike (.field item) (.field item'))
      (field isEnumConstant) (field isEnumConstant) := by
  refine follows_preamble.bind fun front front' alike => ?_
  rw [alike.nullness]
  refine (follows_typeRef front'.nullness).bind_same fun type => ?_
  refine (follows_identifier .fieldName).bind fun name name' same => ?_
  refine follows_value (follows_skip .equals) fun value value' quoted => ?_
  obtain ⟨blanks, quoted⟩ := quoted_value quoted
  refine (follows_expect .semicolon).bind fun _ _ _ => follows_pure ⟨?_, ?_⟩
  · simp only [Member.outline, alike.modifiers.same, text_eq same, blanks]
  · exact List.rel_append alike.modifiers.quoted quoted

theorem follows_member :
    run.Follows (fun found found' => run.MemberAlike found.item found'.item) member member := by
  refine (follows_identifier .memberDeclaration).bind fun keyword keyword' same => ?_
  dsimp only
  rw [← text_eq same]
  split
  · exact follows_constructor.bind fun _ _ alike => follows_pure alike
  · exact follows_method.bind fun _ _ alike => follows_pure alike
  · exact (follows_field false).bind fun _ _ alike => follows_pure alike
  · exact (follows_field true).bind fun _ _ alike => follows_pure alike
  · exact follows_failAt keyword.line keyword'.line _

end Signature.Respacing

end ApiCompat
