import ApiCompat.Proofs.Cursor.Types
import ApiCompat.Proofs.Signature.Bodies

/-!
# Members with a cursor

The front of a declaration takes a lexeme in each of its rounds.  A value
reaches from its first lexeme to the one before the semicolon, and so it is cut
out of the text where its lexemes are quoted from it (`tracks_rawValue`).
-/

set_option autoImplicit false

namespace ApiCompat.Signature

open Reader
open Cursor (Source Walk)

variable {source : Source} {cursor bound : Nat}

/-! ## What stands in front of a declaration -/

theorem tracks_preambleFrom :
    TracksRounds source bound Cursor.preambleFrom preambleFrom SameValue := by
  refine tracksRounds (fun _ => rfl) fun cursor fuel rounds sofar _ later => .look (.remaining ?_)
  rcases source.cases cursor with ⟨nothing, atEnd⟩ | ⟨next, here, within, whole⟩
  · rw [nothing, atEnd]
    refine .look ?_
    rw [nothing]
    exact tracksTo_pure rfl
  · rw [here, whole]
    by_cases sign : next.kind = .atSign
    · simp only [Option.any_some, beq_iff_eq, sign, if_true, source.head?_behind]
      refine .look (.ite (tracksTo_pure rfl) (.look ?_))
      rw [here]
      refine .advance (tracks_annotationUse cursor le_rfl) advances_annotationUse ?_
      rintro ⟨name, text⟩ behind moved
      dsimp only
      cases Nullness.ofAnnotation? name with
      | none => exact later _ behind moved
      | some nullness =>
          refine (tracks_mergeNullness _ nullness next.line behind le_rfl).andThen ?_
          exact fun merged behind' onward => later _ behind' (moved.trans_le onward)
    · simp only [Option.any_some, beq_iff_eq, sign, if_false]
      refine .look ?_
      rw [here, Option.bind_some]
      by_cases word : next.kind = .identifier
      · simp only [word, if_true]
        cases sofar.modifiers.applyWord? next.text with
        | none => exact tracksTo_pure rfl
        | some modifiers => exact .move within rfl (later _ _ (Nat.lt_succ_self cursor))
      · simp only [word, if_false]
        exact tracksTo_pure rfl

theorem tracks_preamble : Tracks source bound Cursor.preamble preamble :=
  fun _ behind => .look (.remaining (tracks_preambleFrom.start {} behind))

/-! ## Parameters -/

theorem tracks_parameter : Tracks source bound Cursor.parameter parameter := by
  refine tracks_plainType.bind fun type cursor _ => .look ?_
  have took := takeIf_behind source cursor fun lexeme => lexeme.kind == .identifier
  cases named : source.lexemes[cursor]?.any fun lexeme => lexeme.kind == .identifier with
  | false =>
      rw [named] at took
      refine (tracksTo_pure rfl).congr ?_
      rw [bind_ok took, Option.map_none]
  | true =>
      rw [named] at took
      rcases source.cases cursor with ⟨nothing, _⟩ | ⟨next, here, within, _⟩
      · rw [nothing] at named
        cases named
      · rw [here] at took
        exact .acts (advance_some here) trivial (Nat.le_succ cursor) within (bind_ok took)
          (tracksTo_pure rfl)

theorem tracks_parameters : Tracks source bound Cursor.parameters parameters := by
  refine tracks_expect.bind fun _ => .branch (tracksTo_eat _) tracks_pure ?_
  exact (tracks_separated .comma tracks_parameter).bind fun _ =>
    tracks_expect.bind fun _ => tracks_pure

theorem tracks_throwsClause : Tracks source bound Cursor.throwsClause throwsClause :=
  .branch (tracksTo_eatWord _) (tracks_separated .comma tracks_plainType) tracks_pure

/-! ## Values -/

/-- What is read of a value of which these lexemes were taken before. -/
def valueRest (taken : List Lexeme) : Reader String := do
  let lexemes ← remaining
  valueFrom (taken ++ lexemes.takeWhile fun lexeme => !isSemicolon lexeme)
    (lexemes.dropWhile fun lexeme => !isSemicolon lexeme)

theorem rawValue_eq : rawValue = valueRest [] := by
  funext context lexemes
  rw [rawValue_apply]
  rfl

theorem valueRest_nil {taken : List Lexeme} (filled : taken ≠ []) (context : Context) :
    valueRest taken context [] = unexpected (.token .semicolon) context [] := by
  cases taken with
  | nil => exact absurd rfl filled
  | cons first more => rfl

theorem valueRest_semicolon {taken : List Lexeme} (filled : taken ≠ []) {semicolon : Lexeme}
    (kind : semicolon.kind = .semicolon) (context : Context) (rest : List Lexeme) :
    valueRest taken context (semicolon :: rest) =
      .ok (Lexeme.sourceText taken, semicolon :: rest) := by
  have stops : isSemicolon semicolon = true := beq_iff_eq.mpr kind
  rw [valueRest, bind_ok (remaining_apply context _), List.takeWhile_cons, List.dropWhile_cons,
    stops, Bool.not_true, if_neg Bool.false_ne_true, if_neg Bool.false_ne_true, List.append_nil,
    valueFrom, if_neg (by simpa using filled)]
  rfl

theorem valueRest_cons (taken : List Lexeme) {next : Lexeme} (kind : next.kind ≠ .semicolon)
    (context : Context) (rest : List Lexeme) :
    valueRest taken context (next :: rest) = valueRest (taken ++ [next]) context rest := by
  have passes : isSemicolon next = false := beq_eq_false_iff_ne.mpr kind
  rw [valueRest, bind_ok (remaining_apply context _), valueRest,
    bind_ok (remaining_apply context _), List.takeWhile_cons, List.dropWhile_cons, passes,
    Bool.not_false, if_pos rfl, if_pos rfl, List.append_assoc, List.singleton_append, valueFrom,
    if_neg (by simp)]
  rfl

/-- A value goes on from where it began, and a slice ends it at the semicolon. -/
theorem tracksTo_valueFrom {since start fuel stop : Nat}
    (spans : Spans source since cursor start stop)
    (enough : source.lexemes.length - cursor < fuel) :
    TracksAt source cursor (Cursor.valueFrom start fuel stop)
      (valueRest (source.between since cursor)) := by
  induction fuel generalizing cursor stop with
  | zero => exact absurd enough (Nat.not_lt_zero _)
  | succ fuel ih =>
      refine .look fun inside => ?_
      have filled := source.between_ne_nil spans.onward inside
      rcases source.cases cursor with ⟨nothing, atEnd⟩ | ⟨next, here, within, whole⟩
      · rw [nothing]
        refine tracksTo_unexpected.congr ?_ inside
        rw [atEnd, valueRest_nil filled]
      · rw [here]
        dsimp only
        split
        · next semicolon =>
            obtain ⟨cut, safe⟩ := spans.slice_run inside cursor
            rw [cut, whole, valueRest_semicolon filled semicolon, ← whole]
            exact ⟨List.forall_mem_singleton.mpr ⟨inside, safe⟩,
              .inl ⟨_, _, cursor, rfl, rfl, le_rfl, inside, rfl⟩⟩
        · next plain =>
            have left := valueRest_cons (source.between since cursor) plain source.context
              (source.behind (cursor + 1))
            rw [← source.between_succ spans.onward.le here, ← whole] at left
            have further : Spans source since (cursor + 1) start next.stop :=
              ⟨spans.onward.trans (Nat.lt_succ_self cursor), spans.first, by
                rw [Nat.add_sub_cancel, here, Option.map_some]⟩
            exact TracksTo.move within left (ih further (by omega)) inside

theorem tracks_rawValue : Tracks source bound Cursor.rawValue rawValue := by
  rw [rawValue_eq]
  refine fun cursor _ => .look ?_
  rcases source.cases cursor with ⟨nothing, atEnd⟩ | ⟨first, here, within, whole⟩
  · rw [nothing]
    refine tracksTo_unexpected.congr ?_
    rw [atEnd]
    rfl
  · rw [here]
    dsimp only
    split
    · next semicolon =>
        refine tracksTo_unexpected.congr ?_
        have stops : isSemicolon first = true := beq_iff_eq.mpr semicolon
        rw [whole, valueRest, bind_ok (remaining_apply _ _), List.takeWhile_cons, stops]
        rfl
    · next plain =>
        refine .look (.look ?_)
        rw [here]
        dsimp only
        rw [if_neg plain]
        have taken : source.between cursor (cursor + 1) = [] ++ [first] := by
          rw [source.between_succ le_rfl here, Source.between, Nat.sub_self, List.take_zero]
        have left := valueRest_cons [] plain source.context (source.behind (cursor + 1))
        rw [← taken, ← whole] at left
        refine .move within left (tracksTo_valueFrom ⟨Nat.lt_succ_self cursor, ?_, ?_⟩ ?_)
        · rw [here, Option.map_some]
        · rw [Nat.add_sub_cancel, here, Option.map_some]
        · omega

/-- What is walked over of a member from the sign of its value on. -/
theorem tracks_valueClause {α : Type} {sign : Walk Bool} {sign' : Reader Bool}
    {next : Option String → Walk α} {next' : Option String → Reader α}
    (signs : ∀ cursor, TracksTo source cursor sign sign' (MovesOn cursor))
    (later : ∀ value, Tracks source bound (next value) (next' value)) :
    Tracks source bound
      (sign >>= fun found => if found = true then (some <$> Cursor.rawValue) >>= next
        else pure none >>= next)
      (sign' >>= fun found => if found = true then (some <$> rawValue) >>= next'
        else pure none >>= next') :=
  .branch signs ((tracks_rawValue.bind fun _ => tracks_pure).bind later) (tracks_pure.bind later)

/-! ## Members -/

theorem tracks_constructor : Tracks source bound Cursor.constructor constructor := by
  refine tracks_preamble.bind fun front => tracks_typeParams.bind fun typeParams => ?_
  refine (tracks_qualifiedName _).bind fun name => tracks_parameters.bind fun parameters => ?_
  exact tracks_throwsClause.bind fun _ => tracks_expect.bind fun _ => tracks_pure

theorem tracks_method : Tracks source bound Cursor.method method := by
  refine tracks_preamble.bind fun front => tracks_typeParams.bind fun typeParams => ?_
  refine tracks_typeRef.bind fun returnType => tracks_identifier.bind fun name => ?_
  refine tracks_parameters.bind fun parameters => tracks_throwsClause.bind fun throws => ?_
  refine tracks_valueClause (tracksTo_eatWord _) fun defaultValue => ?_
  exact tracks_expect.bind fun _ => tracks_pure

theorem tracks_field (isEnumConstant : Bool) :
    Tracks source bound (Cursor.field isEnumConstant) (field isEnumConstant) := by
  refine tracks_preamble.bind fun front => tracks_typeRef.bind fun type => ?_
  refine tracks_identifier.bind fun name => tracks_valueClause (tracksTo_eat _) fun value => ?_
  exact tracks_expect.bind fun _ => tracks_pure

theorem memberBehind_eq_ite (keyword : String) (line : Nat) : memberBehind keyword line =
    if keyword = "ctor" then do return { line, item := .constructor (← constructor) }
    else if keyword = "method" then do return { line, item := .method (← method) }
    else if keyword = "field" then do return { line, item := .field (← field false) }
    else if keyword = "enum_constant" then do return { line, item := .field (← field true) }
    else failAt line (.unsupportedMember keyword) := by
  unfold memberBehind
  split
  case h_5 noConstructor noMethod noField noConstant =>
    rw [if_neg noConstructor, if_neg noMethod, if_neg noField, if_neg noConstant]
  all_goals rfl

theorem tracks_memberBehind (keyword : String) (line : Nat) :
    Tracks source bound (Cursor.memberBehind keyword line) (memberBehind keyword line) := by
  rw [memberBehind_eq_ite]
  refine .ite (tracks_constructor.bind fun _ => tracks_pure) ?_
  refine .ite (tracks_method.bind fun _ => tracks_pure) ?_
  refine .ite ((tracks_field false).bind fun _ => tracks_pure) ?_
  exact .ite ((tracks_field true).bind fun _ => tracks_pure) fun _ _ => tracksTo_failAt

theorem tracks_member : Tracks source bound Cursor.member member := by
  refine fun cursor behind => .part .member ?_ advances_member
  rw [member_eq_behind]
  exact tracks_identifier.bind (fun keyword => tracks_memberBehind _ _) cursor behind

end ApiCompat.Signature
