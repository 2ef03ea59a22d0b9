import ApiCompat.Proofs.Signature.Gives
import ApiCompat.Proofs.Signature.Rereadable

/-!
# The types that are read

Every type that is read is made of identifiers, and what follows an open
wildcard is not the word of a bound, or it would have been taken.
-/

set_option autoImplicit false

namespace ApiCompat.Signature

open Reader

variable {pre : List Lexeme → Prop}

/-! ## Marks -/

theorem yields_annotationUse : Yields annotationUse fun _ => True := by
  intro context lexemes value rest _ _ read
  obtain ⟨sign, first, more, rfl, _⟩ := annotationUse_follow read
  exact ⟨List.suffix_append _ _, trivial⟩

theorem gives_mergeNullness {declared : Option Nullness} {incoming : Nullness} {line : Nat} :
    Gives pre (mergeNullness declared incoming line) fun _ rest => pre rest := by
  unfold mergeNullness
  split
  · split
    · exact gives_pure fun _ => id
    · exact gives_failAt
  · exact gives_pure fun _ => id

theorem yields_typeAnnotations {line : Nat} (rounds : Nat) (declared : Option Nullness) :
    Yields (typeAnnotations line rounds declared) fun _ => True := by
  induction rounds generalizing declared with
  | zero => exact gives_pure fun _ _ => trivial
  | succ rounds ih =>
      refine Gives.bind gives_isNext fun found => ?_
      cases found with
      | false => exact gives_pure fun _ _ => trivial
      | true =>
          refine yields_annotationUse.bind fun use _ => ?_
          obtain ⟨name, source⟩ := use
          dsimp only
          cases Nullness.ofAnnotation? name with
          | none => exact ih declared
          | some nullness => exact gives_mergeNullness.bind fun declared => ih declared

theorem yields_nullnessSuffix : Yields nullnessSuffix fun _ => True := by
  refine gives_skip.anywhere.bind fun question => ?_
  cases question with
  | true => exact gives_pure fun _ _ => trivial
  | false =>
      refine gives_skip.anywhere.bind fun bang => ?_
      cases bang <;> exact gives_pure fun _ _ => trivial

theorem yields_arrayDims (rounds : Nat) : Yields (arrayDims rounds) fun _ => True := by
  induction rounds with
  | zero => exact gives_pure fun _ _ => trivial
  | succ rounds ih =>
      refine gives_skip.anywhere.bind fun opened => ?_
      cases opened with
      | false => exact gives_pure fun _ _ => trivial
      | true =>
          refine yields_expect.anywhere.bind fun _ => ?_
          exact ih.anywhere.bind fun more => gives_pure fun _ _ => trivial

theorem yields_settleNullness {line : Nat} (declared suffix : Option Nullness) :
    Yields (settleNullness line declared suffix) fun _ => True := by
  cases declared with
  | none =>
      cases suffix with
      | none => exact gives_context.bind fun _ => gives_pure fun _ _ => trivial
      | some marked => exact gives_pure fun _ _ => trivial
  | some nullness =>
      cases suffix with
      | none => exact gives_pure fun _ _ => trivial
      | some marked =>
          show Yields (if nullness = marked then _ else _) _
          split
          · exact gives_pure fun _ _ => trivial
          · exact gives_failAt

/-! ## Types -/

def NoBound (rest : List Lexeme) : Prop :=
  ∀ next ∈ rest.head?, next.isWord "extends" = false ∧ next.isWord "super" = false

/-- The type is made of identifiers and is not continued by what follows. -/
def ReadType (type : TypeRef) (rest : List Lexeme) : Prop :=
  type.Formed AnyIdentifier ∧ (type.endsOpen = true → NoBound rest)

theorem gives_wildcardBound {type : Reader TypeRef} (gives : Gives Anything type ReadType) :
    Gives Anything (wildcardBound type) fun bound rest =>
      TypeRef.FormedBound AnyIdentifier bound ∧
        (TypeRef.boundEndsOpen bound = true → NoBound rest) := by
  refine gives_skipWord.bind fun upper => ?_
  cases upper with
  | true =>
      refine gives.anywhere.bind fun inner => gives_pure fun _ before => ?_
      exact before
  | false =>
      refine gives_skipWord.bind fun lower => ?_
      cases lower with
      | true =>
          refine gives.anywhere.bind fun inner => gives_pure fun _ before => ?_
          exact before
      | false =>
          refine gives_pure fun lexemes before => ⟨trivial, fun _ => ?_⟩
          obtain ⟨notUpper, notLower⟩ := before rfl
          exact fun next member => ⟨(notUpper rfl).2 next member, notLower next member⟩

theorem yields_typeArguments {type : Reader TypeRef} (gives : Gives Anything type ReadType) :
    Yields (typeArguments type) (TypeRef.FormedAll AnyIdentifier) := by
  refine gives_skip.anywhere.bind fun opened => ?_
  cases opened with
  | false => exact gives_pure fun _ _ => trivial
  | true =>
      have formed : Yields type (TypeRef.Formed AnyIdentifier) :=
        gives.imp (fun _ => id) fun _ _ outcome => outcome.1
      refine (yields_separated formed .comma).anywhere.bind fun args => Yields.of fun inArgs => ?_
      exact yields_expect.bind fun _ _ =>
        gives_pure fun _ _ => TypeRef.formedAll_iff.mpr inArgs.2

theorem gives_typeWithin (depth : Nat) (declared : Option Nullness) :
    Gives Anything (typeWithin depth declared) ReadType := by
  induction depth generalizing declared with
  | zero => exact gives_unexpected
  | succ depth ih =>
      refine gives_currentLine.bind fun line => ?_
      refine gives_remaining.bind fun lexemes => ?_
      refine (yields_typeAnnotations lexemes.length declared).anywhere.bind fun declared => ?_
      refine gives_skip.anywhere.bind fun wildcard => ?_
      cases wildcard with
      | true =>
          refine (gives_wildcardBound (ih none)).anywhere.bind fun bound => gives_pure ?_
          rintro rest ⟨formed, closed⟩
          exact ⟨.inl ⟨rfl, rfl, rfl, rfl, rfl, formed⟩,
            fun isOpen => closed (by simpa [TypeRef.endsOpen] using isOpen)⟩
      | false =>
          refine yields_qualifiedName.anywhere.bind fun name => Yields.of fun dotted => ?_
          refine (yields_typeArguments (ih none)).bind fun args inArgs => ?_
          refine yields_nullnessSuffix.bind fun inner _ => ?_
          refine gives_remaining.bind fun lexemes => ?_
          refine (yields_arrayDims lexemes.length).anywhere.bind fun dims => ?_
          refine gives_skip.anywhere.bind fun varargs => ?_
          refine yields_nullnessSuffix.anywhere.bind fun outer => ?_
          refine (yields_settleNullness _ _).anywhere.bind fun nullness => gives_pure ?_
          intro rest _
          refine ⟨.inr ⟨dotted, rfl, inArgs⟩, fun isOpen => ?_⟩
          have wildcard : name = "?" := by
            simp only [TypeRef.endsOpen, Bool.and_eq_true, beq_iff_eq] at isOpen
            exact isOpen.1
          have idents : Identifiers AnyIdentifier := fun _ => id
          exact absurd (wildcard ▸ dotted) idents.not_wildcard

theorem gives_typeRef {declared : Option Nullness} :
    Gives Anything (typeRef declared) ReadType :=
  gives_remaining.bind fun lexemes => (gives_typeWithin lexemes.length declared).anywhere

theorem yields_plainType : Yields plainType (TypeRef.Formed AnyIdentifier) :=
  gives_typeRef.imp (fun _ => id) fun _ _ outcome => outcome.1

end ApiCompat.Signature
