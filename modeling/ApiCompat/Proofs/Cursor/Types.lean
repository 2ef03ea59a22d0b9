import ApiCompat.Proofs.Cursor.Annotations

/-!
# Types with a cursor

A type takes a lexeme before a type nested in it begins, and so does a round of
a loop.  So types are not nested deeper than there are lexemes, and no loop
goes round more often (`tracks_typeWithin`).
-/

set_option autoImplicit false

namespace ApiCompat.Signature

open Reader
open Cursor (Source Walk)

variable {source : Source} {cursor bound : Nat}

/-! ## Nullness -/

theorem tracks_mergeNullness (declared : Option Nullness) (incoming : Nullness) (line : Nat) :
    Tracks source bound (Cursor.mergeNullness declared incoming line)
      (mergeNullness declared incoming line) := by
  cases declared with
  | none => exact tracks_pure
  | some nullness => exact tracks_pure.ite fun _ _ => tracksTo_failAt

theorem tracks_typeAnnotations (line : Nat) :
    TracksRounds source bound (Cursor.typeAnnotations line) (typeAnnotations line) SameValue := by
  refine tracksRounds (fun _ => rfl) fun cursor fuel rounds declared _ later => ?_
  refine .choose (fun _ _ _ => ?_) fun _ => tracksTo_pure rfl
  refine .advance (tracks_annotationUse cursor le_rfl) advances_annotationUse ?_
  rintro ⟨name, text⟩ next moved
  dsimp only
  cases Nullness.ofAnnotation? name with
  | none => exact later declared next moved
  | some nullness =>
      refine (tracks_mergeNullness declared nullness line next le_rfl).andThen ?_
      exact fun merged behind onward => later merged behind (moved.trans_le onward)

theorem tracks_nullnessSuffix : Tracks source bound Cursor.nullnessSuffix nullnessSuffix :=
  .branch (tracksTo_eat _) tracks_pure (.branch (tracksTo_eat _) tracks_pure tracks_pure)

theorem tracks_arrayDims :
    TracksRounds source bound (fun fuel (_ : Unit) => Cursor.arrayDims fuel)
      (fun rounds (_ : Unit) => arrayDims rounds) SameValue := by
  refine tracksRounds (fun _ => rfl) fun cursor fuel rounds _ _ later => ?_
  refine (tracksTo_eat .leftBracket cursor).branch ?_ (tracksTo_pure rfl)
  refine (tracks_expect (cursor + 1) le_rfl).andThen fun _ next onward => ?_
  exact (later () next onward).andThen fun _ _ _ => tracksTo_pure rfl

theorem tracks_settleNullness (line : Nat) (declared suffix : Option Nullness) :
    Tracks source bound (Cursor.settleNullness line declared suffix)
      (settleNullness line declared suffix) := by
  cases declared <;> cases suffix
  case none.none => exact fun _ _ => .look (tracksTo_pure rfl)
  case none.some => exact tracks_pure
  case some.none => exact tracks_pure
  case some.some => exact tracks_pure.ite fun _ _ => tracksTo_failAt

/-! ## Types in types -/

section Nested

variable {walk : Walk TypeRef} {type : Reader TypeRef}

theorem tracks_wildcardBound (tracks : Tracks source bound walk type) :
    Tracks source bound (Cursor.wildcardBound walk) (wildcardBound type) := by
  have bounded : ∀ wrap : TypeRef → Bound TypeRef, Tracks source bound
      (walk >>= fun found => pure (wrap found)) (type >>= fun found => pure (wrap found)) :=
    fun _ => tracks.bind fun _ => tracks_pure
  exact .branch (tracksTo_eatWord _) (bounded _)
    (.branch (tracksTo_eatWord _) (bounded _) tracks_pure)

theorem tracks_typeArguments (tracks : Tracks source bound walk type) :
    Tracks source bound (Cursor.typeArguments walk) (typeArguments type) := by
  refine .branch (tracksTo_eat _) ?_ tracks_pure
  exact (tracks_separated .comma tracks).bind fun _ => tracks_expect.bind fun _ => tracks_pure

end Nested

theorem tracks_typeWithin :
    TracksRounds source bound Cursor.typeWithin typeWithin SameValue := by
  refine tracksRounds (fun _ => rfl) fun cursor fuel depth declared _ later => ?_
  -- A name is read before the types in brackets and a mark before a bound, so these begin behind
  -- the cursor and need fewer rounds.
  have nested : Tracks source (cursor + 1) (Cursor.typeWithin fuel none) (typeWithin depth none) :=
    fun next moved => later none next moved
  refine .part .type ?_ (advances_typeWithin (depth + 1) declared)
  refine .line fun line => .look (.remaining ?_)
  refine ((tracks_typeAnnotations line).start declared le_rfl).andThen ?_
  intro declared next onward
  have moved : cursor + 1 ≤ next + 1 := Nat.succ_le_succ onward
  refine (tracksTo_eat .question next).branch ?_ ?_
  · exact ((tracks_wildcardBound nested).bind fun _ => tracks_pure) (next + 1) moved
  · refine .advance (tracks_qualifiedName _ next le_rfl) (advances_qualifiedName) ?_
    intro name behindName further
    refine (tracks_typeArguments nested behindName (by omega)).andThen fun args next _ => ?_
    refine (tracks_nullnessSuffix next le_rfl).andThen fun inner next _ => .look (.remaining ?_)
    refine (tracks_arrayDims.start () le_rfl).andThen fun dims next _ => ?_
    refine (tracks_eat next le_rfl).andThen fun varargs next _ => ?_
    refine (tracks_nullnessSuffix next le_rfl).andThen fun outer next _ => ?_
    refine (tracks_settleNullness _ _ _ next le_rfl).andThen fun _ _ _ => tracksTo_pure rfl

theorem tracks_typeRef {declared : Option Nullness} :
    Tracks source bound (Cursor.typeRef declared) (typeRef declared) :=
  fun _ behind => .look (.remaining (tracks_typeWithin.start declared behind))

theorem tracks_plainType : Tracks source bound Cursor.plainType plainType := tracks_typeRef

/-! ## Type parameters -/

theorem tracks_typeParam : Tracks source bound Cursor.typeParam typeParam := by
  refine tracks_identifier.bind fun name => .branch (tracksTo_eatWord _) ?_ tracks_pure
  exact (tracks_separated .ampersand tracks_plainType).bind fun _ => tracks_pure

def typeParamList : Reader (List TypeParam) := do
  let _ ← expect .less
  let params ← separated .comma typeParam
  let _ ← expect .greater
  return params

theorem advances_typeParamList : Advances typeParamList := by
  refine advances_expectKind.bind fun _ => (careful_separated careful_typeParam .comma).bind ?_
  exact fun _ => careful_expect.bind fun _ => careful_pure

theorem tracks_typeParamList : Tracks source bound Cursor.typeParamList typeParamList := by
  refine fun cursor behind => .part .typeParams ?_ advances_typeParamList
  refine Tracks.bind tracks_expect (fun _ => ?_) cursor behind
  exact (tracks_separated .comma tracks_typeParam).bind fun _ =>
    tracks_expect.bind fun _ => tracks_pure

/-- A list of type parameters is read where its bracket opens. -/
theorem typeParams_isNext : typeParams = (do
    if ← isNext .less then typeParamList else return []) := by
  funext context lexemes
  cases lexemes with
  | nil => rfl
  | cons next rest =>
      by_cases opens : next.kind = .less
      · have opening : isNext .less context (next :: rest) = .ok (true, next :: rest) := by
          rw [isNext_apply, List.head?_cons, Option.any_some, beq_iff_eq.mpr opens]
        have opened : expect .less context (next :: rest) = .ok (next, rest) :=
          expectKind_here opens _ context rest
        rw [bind_ok opening, typeParams, bind_ok (skip_here opens context rest), if_pos rfl,
          if_pos rfl, typeParamList, bind_ok opened]
      · have other : isNext .less context (next :: rest) = .ok (false, next :: rest) := by
          rw [isNext_apply, List.head?_cons, Option.any_some, beq_eq_false_iff_ne.mpr opens]
        rw [bind_ok other, typeParams, bind_ok (skip_elsewhere opens context rest)]
        rfl

theorem tracks_typeParams : Tracks source bound Cursor.typeParams typeParams := by
  rw [typeParams_isNext]
  exact fun cursor behind => .choose (fun _ _ _ => tracks_typeParamList cursor behind)
    fun _ => tracksTo_pure rfl

end ApiCompat.Signature
