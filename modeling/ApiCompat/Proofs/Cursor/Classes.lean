import ApiCompat.Proofs.Cursor.Members

/-!
# Classes and packages with a cursor

A type of a list, a member of a class, a class of a package and a package block
each take a lexeme, so that no block goes round more often than there are
lexemes (`tracks_packageBlocks`).
-/

set_option autoImplicit false

namespace ApiCompat.Signature

open Reader
open Cursor (Source Walk)

variable {source : Source} {cursor bound : Nat}

/-! ## Heads of classes -/

theorem tracks_classKind : Tracks source bound Cursor.classKind classKind := by
  refine .branch (tracksTo_eatWord _) tracks_pure (.branch (tracksTo_eatWord _) tracks_pure ?_)
  refine .branch (tracksTo_eatWord _) tracks_pure fun cursor _ => .look (.look (.remaining ?_))
  rcases source.cases cursor with ⟨nothing, atEnd⟩ | ⟨sign, isSign, within, whole⟩
  · rw [nothing, atEnd]
    exact tracksTo_unexpected
  rcases source.cases (cursor + 1) with ⟨nothing, atEnd⟩ | ⟨word, isWord, within', whole'⟩
  · rw [nothing, whole, atEnd, Option.any_none, Bool.and_false]
    exact tracksTo_unexpected
  · rw [isSign, isWord, whole, whole']
    by_cases announced : sign.kind = .atSign ∧ word.text = "interface"
    · simp only [Option.any_some, announced, beq_self_eq_true, Bool.and_self, if_true, and_self]
      exact .move within' rfl (tracksTo_pure rfl)
    · simp only [Option.any_some, Bool.and_eq_true, beq_iff_eq, announced, if_false]
      exact tracksTo_unexpected

theorem tracks_typeListRest :
    TracksRounds source bound (fun fuel (_ : Unit) => Cursor.typeListRest fuel)
      (fun rounds (_ : Unit) => typeListRest rounds) SameValue := by
  refine tracksRounds (fun _ => rfl) fun cursor fuel rounds _ _ later => ?_
  refine (tracks_eat cursor le_rfl).andThen fun _ next onward => .look (.remaining ?_)
  rw [source.head?_behind]
  cases source.lexemes[next]? with
  | none => exact tracksTo_pure rfl
  | some first =>
      refine .ite (tracksTo_pure rfl) ?_
      refine .advance (tracks_plainType next le_rfl) advances_plainType fun type behind moved => ?_
      exact (later () behind (onward.trans_lt moved)).andThen fun _ _ _ => tracksTo_pure rfl

theorem advances_typeList : Advances typeList :=
  advances_plainType.bind fun _ => careful_remaining fun lexemes =>
    ((careful_typeListRest lexemes.length).bind fun _ => careful_pure) lexemes

theorem tracks_typeList : Tracks source bound Cursor.typeList typeList := by
  refine fun cursor behind => .part .typeList ?_ advances_typeList
  refine (tracks_plainType cursor behind).andThen fun first next _ => .look (.remaining ?_)
  exact (tracks_typeListRest.start () le_rfl).andThen fun _ _ _ => tracksTo_pure rfl

theorem tracks_extendsClause (kind : ClassKind) :
    Tracks source bound (Cursor.extendsClause kind) (extendsClause kind) := by
  refine .branch (tracksTo_eatWord _) (.ite ?_ ?_) tracks_pure
  · exact tracks_typeList.bind fun _ => tracks_pure
  · exact tracks_plainType.bind fun _ => tracks_pure

theorem tracks_implementsClause :
    Tracks source bound Cursor.implementsClause implementsClause :=
  .branch (tracksTo_eatWord _) tracks_typeList tracks_pure

theorem tracks_supertypeClauses (kind : ClassKind) :
    Tracks source bound (Cursor.supertypeClauses kind) (supertypeClauses kind) := by
  rw [supertypeClauses_eq]
  refine (tracks_extendsClause kind).bind fun _ => ?_
  exact tracks_implementsClause.bind fun _ => tracks_pure

/-! ## Blocks -/

theorem tracks_classBody (line : Nat) (owner : String) :
    TracksRounds source bound (Cursor.classBody line owner) (classBody line owner) SameValue := by
  refine tracksRounds (fun _ => rfl) fun cursor fuel rounds members _ later => ?_
  refine (tracksTo_eat .rightBrace cursor).branch (tracksTo_pure rfl) (.atEnd tracksTo_failAt ?_)
  refine .advance (tracks_member cursor le_rfl) advances_member fun found next moved => ?_
  exact .ite tracksTo_failAt (later _ next moved)

theorem tracks_classDecl (package : String) :
    Tracks source bound (Cursor.classDecl package) (classDecl package) := by
  refine fun cursor _ => .part .classDecl ?_ advances_classDecl
  refine .line fun line => ?_
  refine (tracks_preamble cursor le_rfl).andThen fun front next _ => ?_
  refine (tracks_classKind next le_rfl).andThen fun kind next _ => ?_
  refine (tracks_qualifiedName _ next le_rfl).andThen fun name next _ => ?_
  refine (tracks_typeParams next le_rfl).andThen fun typeParams next _ => ?_
  refine (tracks_supertypeClauses kind next le_rfl).andThen fun supertypes next _ => ?_
  refine (tracks_expect next le_rfl).andThen fun _ next _ => .look (.remaining ?_)
  exact ((tracks_classBody line _).start .empty le_rfl).andThen fun _ _ _ => tracksTo_pure rfl

theorem tracks_packageBody (line : Nat) (package : String) :
    TracksRounds source bound (Cursor.packageBody line package) (packageBody line package)
      SameValue := by
  refine tracksRounds (fun _ => rfl) fun cursor fuel rounds classes _ later => ?_
  refine (tracksTo_eat .rightBrace cursor).branch (tracksTo_pure rfl) (.atEnd tracksTo_failAt ?_)
  refine .advance (tracks_classDecl package cursor le_rfl) advances_classDecl ?_
  exact fun found next moved => .ite tracksTo_failAt (later _ next moved)

/-- A package block that is read takes at least its keyword. -/
theorem tracksTo_packageBlock (packages : OrderedMap String (Located Package)) :
    TracksTo source cursor (Cursor.packageBlock packages) (packageBlock packages)
      fun value found next => value = found ∧ cursor < next := by
  refine .line fun line => (tracksTo_eatWord "package" cursor).branch ?_ tracksTo_unexpected
  refine (tracks_qualifiedName _ (cursor + 1) le_rfl).andThen fun name next moved => ?_
  refine (tracks_expect next le_rfl).andThen fun _ next onward => .look (.remaining ?_)
  refine ((tracks_packageBody line name).start _ le_rfl).andThen fun _ next further => ?_
  exact tracksTo_pure ⟨rfl, (moved.trans onward).trans further⟩

theorem tracks_packageBlocks :
    TracksRounds source bound Cursor.packageBlocks packageBlocks SameValue := by
  refine tracksRounds (fun _ => rfl) fun cursor fuel rounds packages _ later => ?_
  refine .atEnd (tracksTo_pure rfl) ((tracksTo_packageBlock packages).bind ?_)
  rintro found _ next ⟨rfl, moved⟩ _ _
  exact later found next moved

end ApiCompat.Signature
