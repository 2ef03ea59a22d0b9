import ApiCompat.Proofs.Respaced.Basic

/-!
# Types see tokens only

An annotation is quoted from its tokens.  A type keeps nothing of how it was
written, so it is the same in both texts.
-/

set_option autoImplicit false

namespace ApiCompat.Signature.Respacing

open Reader

variable {run : Respacing} {rest rest' : List Lexeme} {α : Type}

/-! ## Annotations -/

theorem splitArguments_beside (depth : Nat) (beside : run.Beside rest rest') :
    Option.Rel (fun cut cut' => run.Beside cut.2 cut'.2) (splitArguments depth rest)
      (splitArguments depth rest') := by
  induction rest generalizing rest' depth with
  | nil =>
      obtain rfl := beside.nil
      exact .none
  | cons next later ih =>
      obtain ⟨next', later', rfl, same, behind⟩ := beside.cons
      rw [splitArguments_cons, splitArguments_cons, ← kind_eq same]
      split
      · exact .some behind
      · have cuts := ih (depthAfter depth next.kind) behind
        generalize splitArguments _ later = cut at cuts ⊢
        generalize splitArguments _ later' = cut' at cuts ⊢
        cases cuts with
        | none => exact .none
        | some beside => exact .some beside

theorem follows_annotationArguments :
    run.Follows Eq annotationArguments annotationArguments := by
  refine (follows_isNext .leftParen).branch ?_ (follows_pure rfl)
  refine follows_currentLine.bind fun line line' _ => ?_
  refine follows_remaining.bind fun rest rest' beside => ?_
  have cuts := splitArguments_beside 0 beside
  generalize splitArguments 0 rest = cut at cuts
  generalize splitArguments 0 rest' = cut' at cuts
  cases cuts with
  | none => exact follows_failAt line line' _
  | some behind => exact follows_continueWith behind

/-- What a reader took is quoted: both runs took the same number of lexemes. -/
theorem follows_withSource {reader : Reader α} (follows : run.Follows Eq reader reader) :
    run.Follows (fun out out' => out.1 = out'.1 ∧ run.Quoted out.2 out'.2) (withSource reader)
      (withSource reader) := by
  refine follows_remaining.bind fun before before' beside => ?_
  refine follows.bind_same fun value => ?_
  refine follows_remaining.bind fun after after' behind => ?_
  refine follows_pure ⟨rfl, ?_⟩
  rw [← beside.length_eq, ← behind.length_eq]
  exact beside.quoted _

theorem follows_annotationUse :
    run.Follows (fun out out' => out.1 = out'.1 ∧ run.Quoted out.2 out'.2) annotationUse
      annotationUse := by
  refine follows_withSource ?_
  refine (follows_expect .atSign).bind fun _ _ _ => ?_
  refine (follows_qualifiedName .annotationName).bind_same fun name => ?_
  refine follows_annotationArguments.bind fun _ _ _ => ?_
  exact follows_pure rfl

theorem follows_mergeNullness (declared : Option Nullness) (incoming : Nullness)
    (line line' : Nat) :
    run.Follows Eq (mergeNullness declared incoming line)
      (mergeNullness declared incoming line') := by
  cases declared with
  | none => exact follows_pure rfl
  | some nullness =>
      exact .ite Iff.rfl (fun _ => follows_pure rfl) fun _ => follows_failAt line line' _

theorem follows_typeAnnotations (line line' : Nat) (rounds : Nat) (declared : Option Nullness) :
    run.Follows Eq (typeAnnotations line rounds declared)
      (typeAnnotations line' rounds declared) := by
  induction rounds generalizing declared with
  | zero => exact follows_pure rfl
  | succ rounds ih =>
      refine (follows_isNext .atSign).branch ?_ (follows_pure rfl)
      -- The name decides; the quoted text is dropped.
      refine follows_annotationUse.bind ?_
      rintro ⟨name, text⟩ ⟨_, text'⟩ ⟨rfl, _⟩
      dsimp only
      split
      · refine (follows_mergeNullness declared _ line line').bind_same fun declared => ?_
        exact ih declared
      · exact ih declared

/-! ## Parts of types -/

theorem follows_nullnessSuffix : run.Follows Eq nullnessSuffix nullnessSuffix := by
  refine (follows_skip .question).branch (follows_pure rfl) ?_
  exact (follows_skip .bang).branch (follows_pure rfl) (follows_pure rfl)

theorem follows_arrayDims (rounds : Nat) :
    run.Follows Eq (arrayDims rounds) (arrayDims rounds) := by
  induction rounds with
  | zero => exact follows_pure rfl
  | succ rounds ih =>
      refine (follows_skip .leftBracket).branch ?_ (follows_pure rfl)
      refine (follows_expect .rightBracket).bind fun _ _ _ => ?_
      refine ih.bind_same fun more => ?_
      exact follows_pure rfl

theorem follows_settleNullness (line line' : Nat) (declared suffix : Option Nullness) :
    run.Follows Eq (settleNullness line declared suffix)
      (settleNullness line' declared suffix) := by
  cases declared with
  | none =>
      cases suffix with
      | none =>
          refine follows_context.bind fun context context' sameMode => ?_
          rw [sameMode]
          exact follows_pure rfl
      | some nullness => exact follows_pure rfl
  | some nullness =>
      cases suffix with
      | none => exact follows_pure rfl
      | some marked =>
          exact .ite Iff.rfl (fun _ => follows_pure rfl) fun _ => follows_failAt line line' _

section Nested

variable {type : Reader TypeRef} (types : run.Follows Eq type type)

include types

theorem follows_wildcardBound : run.Follows Eq (wildcardBound type) (wildcardBound type) := by
  refine (follows_skipWord "extends").branch ?_ ?_
  · exact types.bind_same fun bound => follows_pure rfl
  · refine (follows_skipWord "super").branch ?_ (follows_pure rfl)
    exact types.bind_same fun bound => follows_pure rfl

theorem follows_typeArguments : run.Follows Eq (typeArguments type) (typeArguments type) := by
  refine (follows_skip .less).branch ?_ (follows_pure rfl)
  refine (follows_separated .comma types).bind_same fun args => ?_
  refine (follows_expect .greater).bind fun _ _ _ => ?_
  exact follows_pure rfl

end Nested

/-! ## Types -/

theorem follows_typeWithin (depth : Nat) (declared : Option Nullness) :
    run.Follows Eq (typeWithin depth declared) (typeWithin depth declared) := by
  induction depth generalizing declared with
  | zero => exact follows_unexpected .typeName
  | succ depth ih =>
      refine follows_currentLine.bind fun line line' _ => ?_
      refine follows_remaining.bind fun rest rest' beside => ?_
      rw [beside.length_eq]
      refine (follows_typeAnnotations line line' rest'.length declared).bind_same fun declared => ?_
      refine (follows_skip .question).branch ?_ ?_
      · refine (follows_wildcardBound (ih none)).bind_same fun bound => ?_
        exact follows_pure rfl
      · refine (follows_qualifiedName .typeName).bind_same fun name => ?_
        refine (follows_typeArguments (ih none)).bind_same fun args => ?_
        refine follows_nullnessSuffix.bind_same fun inner => ?_
        refine follows_remaining.bind fun behind behind' beside => ?_
        rw [beside.length_eq]
        refine (follows_arrayDims behind'.length).bind_same fun dims => ?_
        refine (follows_skip .ellipsis).bind_same fun varargs => ?_
        refine follows_nullnessSuffix.bind_same fun outer => ?_
        refine (follows_settleNullness line line' declared _).bind_same fun nullness => ?_
        exact follows_pure rfl

theorem follows_typeRef (declared : Option Nullness) :
    run.Follows Eq (typeRef declared) (typeRef declared) := by
  refine follows_remaining.bind fun rest rest' beside => ?_
  rw [beside.length_eq]
  exact follows_typeWithin rest'.length declared

theorem follows_plainType : run.Follows Eq plainType plainType := follows_typeRef none

theorem follows_typeParam : run.Follows Eq typeParam typeParam := by
  refine (follows_identifier .typeParameter).bind fun name name' same => ?_
  rw [text_eq same]
  refine (follows_skipWord "extends").branch ?_ (follows_pure rfl)
  refine (follows_separated .ampersand follows_plainType).bind_same fun bounds => ?_
  exact follows_pure rfl

theorem follows_typeParams : run.Follows Eq typeParams typeParams := by
  refine (follows_skip .less).branch ?_ (follows_pure rfl)
  refine (follows_separated .comma follows_typeParam).bind_same fun params => ?_
  refine (follows_expect .greater).bind fun _ _ _ => ?_
  exact follows_pure rfl

end ApiCompat.Signature.Respacing
