import ApiCompat.Proofs.Signature.InTurn
import ApiCompat.Proofs.Signature.Fronts

/-!
# Readers look ahead by one lexeme

What a reader does is decided by the lexemes that it takes and by the next one;
of those behind it sees at most one, if the next one is a dot or a sign
(`Glimpse`).  So a reader that is run once more, on the same lexemes with
others behind them, does the same (`LocalTo`).  Loops have a bound for their
rounds in either run, which is large enough for the lexemes of that run.
-/

set_option autoImplicit false

namespace ApiCompat.Signature

open Reader

/-- A reader that sees `next` without taking it sees nothing else behind that differs. -/
def Glimpse (next : Lexeme) (rest rest' : List Lexeme) : Prop :=
  next.kind = .dot ∨ next.kind = .atSign → rest.head? = rest'.head?

/-- What the first reader does within its bound the second one does within its own, whatever
stands behind the lexemes that were taken and the next one. -/
def LocalTo {α : Type} (bound bound' : Nat) (reader reader' : Reader α) : Prop :=
  ∀ context lexemes value next rest, lexemes.length ≤ bound →
    reader context lexemes = .ok (value, next :: rest) →
    ∃ taken, lexemes = taken ++ next :: rest ∧ ∀ rest', Glimpse next rest rest' →
      (taken ++ next :: rest').length ≤ bound' →
      reader' context (taken ++ next :: rest') = .ok (value, next :: rest')

abbrev Local {α : Type} (reader : Reader α) : Prop :=
  ∀ bound bound', LocalTo bound bound' reader reader

/-! ## Composition -/

section Composition

variable {α β : Type} {bound bound' : Nat} {reader reader' : Reader α} {next next' : α → Reader β}

theorem LocalTo.mono {fewer fewer' : Nat} (local' : LocalTo bound bound' reader reader')
    (le : fewer ≤ bound) (le' : fewer' ≤ bound') : LocalTo fewer fewer' reader reader' := by
  intro context lexemes value next rest enough read
  obtain ⟨taken, whole, again⟩ := local' context lexemes value next rest (by omega) read
  exact ⟨taken, whole, fun rest' glimpse enough' => again rest' glimpse (by omega)⟩

theorem local_pure (value : α) : Local (pure value) := by
  intro bound bound' context lexemes found next rest _ read
  obtain ⟨rfl, rfl⟩ := pure_eq_ok read
  exact ⟨[], rfl, fun rest' _ _ => rfl⟩

theorem local_failAt (line : Nat) (reason : Reason) : Local (failAt line reason : Reader α) := by
  intro bound bound' context lexemes found next rest _ read
  cases read

theorem local_unexpected (expected : Expected) : Local (unexpected expected : Reader α) := by
  intro bound bound' context lexemes found next rest _ read
  cases lexemes <;> cases read

/-- Two readers in a row; the second has fewer lexemes left, by what the first surely takes. -/
theorem LocalTo.step (size : α → Nat) (first : LocalTo bound bound' reader reader')
    (takes : ∀ context taken value rest, reader context (taken ++ rest) = .ok (value, rest) →
      size value ≤ taken.length)
    (second : ∀ value, LocalTo (bound - size value) (bound' - size value) (next value)
      (next' value)) :
    LocalTo bound bound' (reader >>= next) (reader' >>= next') := by
  intro context lexemes value last rest enough read
  obtain ⟨found, behind, readFirst, readNext⟩ := bind_eq_ok read
  cases behind with
  | nil =>
      obtain ⟨taken, whole, _⟩ := second found context [] value last rest (Nat.zero_le _) readNext
      exact absurd whole.symm (List.append_ne_nil_of_right_ne_nil _ (List.cons_ne_nil _ _))
  | cons start behind =>
      obtain ⟨taken, rfl, again⟩ := first context lexemes found start behind enough readFirst
      have some := takes context taken found _ readFirst
      rw [List.length_append] at enough
      obtain ⟨more, whole, againNext⟩ :=
        second found context (start :: behind) value last rest (by omega) readNext
      refine ⟨taken ++ more, by rw [whole, List.append_assoc], fun rest' glimpse enough' => ?_⟩
      rw [List.append_assoc] at enough' ⊢
      have readFirst' : reader' context (taken ++ (more ++ last :: rest')) =
          .ok (found, more ++ last :: rest') := by
        cases more with
        | nil =>
            obtain ⟨rfl, rfl⟩ := List.cons.inj whole
            exact again rest' glimpse enough'
        | cons start' more =>
            obtain ⟨rfl, rfl⟩ := List.cons.inj whole
            exact again (more ++ last :: rest') (fun _ => by cases more <;> rfl) enough'
      rw [List.length_append] at enough'
      rw [bind_ok readFirst']
      exact againNext rest' glimpse (by omega)

theorem LocalTo.bind (first : LocalTo bound bound' reader reader')
    (second : ∀ value, LocalTo bound bound' (next value) (next' value)) :
    LocalTo bound bound' (reader >>= next) (reader' >>= next') :=
  first.step (fun _ => 0) (fun _ _ _ _ _ => Nat.zero_le _) second

/-- Behind a reader that advances a lexeme less is left. -/
theorem LocalTo.advance (first : LocalTo (bound + 1) (bound' + 1) reader reader')
    (advances : Advances reader)
    (second : ∀ value, LocalTo bound bound' (next value) (next' value)) :
    LocalTo (bound + 1) (bound' + 1) (reader >>= next) (reader' >>= next') := by
  refine first.step (fun _ => 1) (fun context taken value rest read => ?_) second
  obtain ⟨head, piece, whole⟩ := advances context _ value rest read
  have lengths := congrArg List.length whole
  simp only [List.length_append, List.length_cons] at lengths
  omega

theorem LocalTo.ite {test : Prop} [Decidable test] {other other' : Reader α}
    (yes : LocalTo bound bound' reader reader') (no : LocalTo bound bound' other other') :
    LocalTo bound bound' (if test then reader else other) (if test then reader' else other') := by
  split
  · exact yes
  · exact no

/-- A choice between two readers by whether a lexeme was taken. -/
theorem LocalTo.branch {test : Reader Bool} {other other' : Reader α} (tests : Local test)
    (yes : LocalTo bound bound' reader reader') (no : LocalTo bound bound' other other') :
    LocalTo bound bound' (test >>= fun found => if found = true then reader else other)
      (test >>= fun found => if found = true then reader' else other') :=
  (tests bound bound').bind fun _ => yes.ite no

/-- If one was taken, a lexeme less is left. -/
theorem LocalTo.branch_advance {test : Reader Bool} {other other' : Reader α} (tests : Local test)
    (takes : ∀ context lexemes rest, test context lexemes = .ok (true, rest) →
      ∃ next, lexemes = next :: rest)
    (yes : LocalTo bound bound' reader reader')
    (no : LocalTo (bound + 1) (bound' + 1) other other') :
    LocalTo (bound + 1) (bound' + 1) (test >>= fun found => if found = true then reader else other)
      (test >>= fun found => if found = true then reader' else other') := by
  refine (tests _ _).step (fun found => if found = true then 1 else 0) ?_ fun found => ?_
  · intro context taken found rest read
    cases found with
    | false => exact Nat.zero_le _
    | true =>
        obtain ⟨next, whole⟩ := takes context _ rest read
        have lengths := congrArg List.length whole
        simp only [List.length_append, List.length_cons] at lengths
        simp only [if_true]
        omega
  · cases found with
    | false => exact no
    | true => exact yes

/-- Where no lexemes are left nothing is read that leaves some. -/
theorem localTo_zero (careful : Careful reader) : LocalTo 0 bound' reader reader' := by
  intro context lexemes value next rest enough read
  obtain rfl := List.length_eq_zero_iff.mp (Nat.le_zero.mp enough)
  have none := List.suffix_nil.mp ((careful []).leaves context value _ read)
  exact absurd none (List.cons_ne_nil _ _)

/-- A second run without lexemes is none. -/
theorem localTo_nothing (careful : Careful reader) : LocalTo bound 0 reader reader' := by
  intro context lexemes value next rest _ read
  obtain ⟨taken, whole⟩ := (careful lexemes).leaves context value _ read
  refine ⟨taken, whole.symm, fun rest' _ enough => ?_⟩
  simp at enough

/-- A loop is bounded by the number of lexemes that are left. -/
theorem localTo_remaining {loop loop' : List Lexeme → Reader β}
    (loops : ∀ lexemes lexemes', lexemes.length ≤ bound → lexemes'.length ≤ bound' →
      LocalTo lexemes.length lexemes'.length (loop lexemes) (loop' lexemes')) :
    LocalTo bound bound' (remaining >>= loop) (remaining >>= loop') := by
  intro context lexemes value next rest enough read
  have read : loop lexemes context lexemes = .ok (value, next :: rest) := read
  obtain ⟨taken, whole, _⟩ := loops lexemes [] enough (Nat.zero_le _) context lexemes value next
    rest (Nat.le_refl _) read
  refine ⟨taken, whole, fun rest' glimpse enough' => ?_⟩
  obtain ⟨taken', whole', again⟩ := loops lexemes (taken ++ next :: rest') enough enough' context
    lexemes value next rest (Nat.le_refl _) read
  obtain rfl := List.append_cancel_right (whole.symm.trans whole')
  exact again rest' glimpse (Nat.le_refl _)

/-- Of what is left only the next lexeme is looked at. -/
theorem localTo_peek {look look' : Option Lexeme → Reader β}
    (looks : ∀ head, LocalTo bound bound' (look head) (look' head)) :
    LocalTo bound bound' (remaining >>= fun lexemes => look lexemes.head?)
      (remaining >>= fun lexemes => look' lexemes.head?) := by
  intro context lexemes value next rest enough read
  obtain ⟨taken, rfl, again⟩ := looks _ context lexemes value next rest enough read
  refine ⟨taken, rfl, fun rest' glimpse enough' => ?_⟩
  have head : (taken ++ next :: rest').head? = (taken ++ next :: rest).head? := by
    cases taken <;> rfl
  rw [bind_ok (remaining_apply context _), head]
  exact again rest' glimpse enough'

end Composition

/-! ## Single lexemes -/

theorem local_takeIf (test : Lexeme → Bool) : Local (takeIf? test) := by
  intro bound bound' context lexemes value next rest _ read
  rcases takeIf_eq_ok read with ⟨lexeme, rfl, rfl, passes⟩ | ⟨rfl, rfl, other⟩
  · refine ⟨[lexeme], rfl, fun rest' _ _ => ?_⟩
    simp [takeIf?, passes]
  · refine ⟨[], rfl, fun rest' _ _ => ?_⟩
    simp [takeIf?, other next rfl]

theorem local_skip (kind : TokenKind) : Local (skip? kind) :=
  fun _ _ => (local_takeIf _ _ _).bind fun _ => local_pure _ _ _

theorem local_skipWord (word : String) : Local (skipWord? word) :=
  fun _ _ => (local_takeIf _ _ _).bind fun _ => local_pure _ _ _

theorem takes_of_skip {kind : TokenKind} (context : Context) (lexemes rest : List Lexeme)
    (read : skip? kind context lexemes = .ok (true, rest)) : ∃ next, lexemes = next :: rest := by
  obtain ⟨_, next, whole, _⟩ := (skip_eq_ok read).resolve_right (by simp)
  exact ⟨next, whole⟩

theorem takes_of_skipWord {word : String} (context : Context) (lexemes rest : List Lexeme)
    (read : skipWord? word context lexemes = .ok (true, rest)) :
    ∃ next, lexemes = next :: rest := by
  obtain ⟨_, next, whole, _⟩ := (skipWord_eq_ok read).resolve_right (by simp)
  exact ⟨next, whole⟩

theorem local_expectKind (kind : TokenKind) (expected : Expected) :
    Local (expectKind kind expected) := by
  refine fun bound bound' => (local_takeIf _ _ _).bind fun found => ?_
  cases found with
  | some lexeme => exact local_pure _ _ _
  | none => exact local_unexpected _ _ _

theorem local_isNext (kind : TokenKind) : Local (isNext kind) :=
  fun _ _ => localTo_peek fun _ => local_pure _ _ _

theorem local_currentLine : Local currentLine := by
  intro bound bound' context lexemes value next rest _ read
  cases lexemes with
  | nil => cases read
  | cons start lexemes =>
      obtain ⟨rfl, whole⟩ := Prod.mk.inj (Except.ok.inj read)
      obtain ⟨rfl, rfl⟩ := List.cons.inj whole
      exact ⟨[], rfl, fun rest' _ _ => rfl⟩

theorem local_context : Local context := by
  intro bound bound' context lexemes value next rest _ read
  obtain ⟨rfl, rfl⟩ := Prod.mk.inj (Except.ok.inj read)
  exact ⟨[], rfl, fun rest' _ _ => rfl⟩

/-! ## Lists and names -/

section Lists

variable {α : Type} {item item' : Reader α} {bound bound' : Nat}

theorem localTo_separatedRest (separator : TokenKind) (careful : Careful item)
    {rounds rounds' : Nat} (items : LocalTo rounds rounds' item item') :
    LocalTo rounds rounds' (separatedRest separator item rounds)
      (separatedRest separator item' rounds') := by
  induction rounds generalizing rounds' with
  | zero => exact localTo_zero (careful_separatedRest careful separator 0)
  | succ rounds ih =>
      cases rounds' with
      | zero => exact localTo_nothing (careful_separatedRest careful separator (rounds + 1))
      | succ rounds' =>
          have items := items.mono (Nat.le_succ rounds) (Nat.le_succ rounds')
          refine .branch_advance (local_skip separator) takes_of_skip ?_ (local_pure _ _ _)
          exact items.bind fun _ => (ih items).bind fun _ => local_pure _ _ _

theorem localTo_separated (separator : TokenKind) (careful : Careful item)
    (items : LocalTo bound bound' item item') :
    LocalTo bound bound' (separated separator item) (separated separator item') := by
  refine items.bind fun first => localTo_remaining fun lexemes lexemes' le le' => ?_
  exact (localTo_separatedRest separator careful (items.mono le le')).bind
    fun _ => local_pure _ _ _

end Lists

theorem local_qualifiedName (expected : Expected) : Local (qualifiedName expected) := by
  refine fun bound bound' => (local_expectKind _ _ _ _).bind fun first => ?_
  intro context lexemes value next rest _ read
  rw [bind_ok (remaining_apply context lexemes), bind_ok (continueWith_apply context lexemes _)]
    at read
  obtain ⟨rfl, same⟩ := pure_eq_ok read
  obtain ⟨dotted, words, whole, kinds, stops⟩ := splitDotted_eq lexemes
  rw [same] at whole stops
  refine ⟨dottedLexemes dotted, whole, fun rest' glimpse _ => ?_⟩
  have stops' : ∀ dot word later, next :: rest' = dot :: word :: later →
      ¬(dot.kind = .dot ∧ word.kind = .identifier) := by
    rintro dot word later whole' ⟨isDot, isIdent⟩
    obtain ⟨rfl, rfl⟩ := List.cons.inj whole'
    have head := glimpse (.inl isDot)
    cases rest with
    | nil => cases head
    | cons word' rest =>
        obtain rfl : word' = word := Option.some.inj head
        exact stops next word' rest rfl ⟨isDot, isIdent⟩
  rw [bind_ok (remaining_apply context _), splitDotted_dotted kinds stops',
    bind_ok (continueWith_apply context _ _), words]
  rfl

/-! ## Annotations -/

theorem AnnotationUse.EndsBefore.glimpse {use : AnnotationUse} {next : Lexeme}
    {rest rest' : List Lexeme} (ends : use.EndsBefore (next :: rest))
    (glimpse : Glimpse next rest rest') : use.EndsBefore (next :: rest') := by
  refine ⟨fun none first isFirst => ends.noArguments none first isFirst,
    fun none dot word later => ?_⟩
  rintro whole ⟨isDot, isWord⟩
  obtain ⟨rfl, rfl⟩ := List.cons.inj whole
  have head := glimpse (.inl isDot)
  cases rest with
  | nil => cases head
  | cons word' rest =>
      obtain rfl : word' = word := Option.some.inj head
      exact ends.noWord none next word' rest rfl ⟨isDot, isWord⟩

theorem local_annotationUse : Local annotationUse := by
  rintro bound bound' context lexemes ⟨name, source⟩ next rest _ read
  obtain ⟨use, whole, rfl, rfl, ends⟩ := annotationUse_eq_ok read
  exact ⟨use.lexemes, whole, fun rest' glimpse _ =>
    annotationUse_apply use (ends.glimpse glimpse) context⟩

theorem advances_annotationUse : Advances annotationUse := by
  rintro context lexemes ⟨name, source⟩ rest read
  obtain ⟨use, whole, _, _, _⟩ := annotationUse_eq_ok read
  exact ⟨use.sign, use.first :: (dottedLexemes use.dotted ++ use.arguments), whole⟩

theorem local_mergeNullness (declared : Option Nullness) (incoming : Nullness) (line : Nat) :
    Local (mergeNullness declared incoming line) := by
  intro bound bound'
  cases declared with
  | none => exact local_pure _ _ _
  | some nullness => exact (local_pure _ _ _).ite (local_failAt _ _ _ _)

theorem localTo_typeAnnotations (line rounds rounds' : Nat) (declared : Option Nullness) :
    LocalTo rounds rounds' (typeAnnotations line rounds declared)
      (typeAnnotations line rounds' declared) := by
  induction rounds generalizing rounds' declared with
  | zero => exact localTo_zero (careful_typeAnnotations line 0)
  | succ rounds ih =>
      cases rounds' with
      | zero => exact localTo_nothing (careful_typeAnnotations line (rounds + 1))
      | succ rounds' =>
          refine .branch (local_isNext .atSign) ?_ (local_pure _ _ _)
          refine (local_annotationUse _ _).advance advances_annotationUse fun use => ?_
          dsimp only
          split
          · exact (local_mergeNullness _ _ _ _ _).bind fun _ => ih rounds' _
          · exact ih rounds' _

/-! ## Types -/

theorem local_nullnessSuffix : Local nullnessSuffix := fun _ _ =>
  .branch (local_skip .question) (local_pure _ _ _)
    (.branch (local_skip .bang) (local_pure _ _ _) (local_pure _ _ _))

theorem localTo_arrayDims (rounds rounds' : Nat) :
    LocalTo rounds rounds' (arrayDims rounds) (arrayDims rounds') := by
  induction rounds generalizing rounds' with
  | zero => exact localTo_zero (careful_arrayDims 0)
  | succ rounds ih =>
      cases rounds' with
      | zero => exact localTo_nothing (careful_arrayDims (rounds + 1))
      | succ rounds' =>
          refine .branch_advance (local_skip .leftBracket) takes_of_skip ?_ (local_pure _ _ _)
          refine (local_expectKind _ _ _ _).bind fun _ => ?_
          exact (ih rounds').bind fun _ => local_pure _ _ _

theorem local_settleNullness (line : Nat) (declared suffix : Option Nullness) :
    Local (settleNullness line declared suffix) := by
  intro bound bound'
  cases declared <;> cases suffix
  case none.none => exact (local_context _ _).bind fun _ => local_pure _ _ _
  case none.some => exact local_pure _ _ _
  case some.none => exact local_pure _ _ _
  case some.some => exact (local_pure _ _ _).ite (local_failAt _ _ _ _)

section Nested

variable {type type' : Reader TypeRef} {bound bound' : Nat}

theorem localTo_wildcardBound (types : LocalTo bound bound' type type') :
    LocalTo bound bound' (wildcardBound type) (wildcardBound type') := by
  have bounded : ∀ wrap : TypeRef → Bound TypeRef, LocalTo bound bound'
      (type >>= fun found => pure (wrap found)) (type' >>= fun found => pure (wrap found)) :=
    fun _ => types.bind fun _ => local_pure _ _ _
  refine .branch (local_skipWord "extends") (bounded .upper) ?_
  exact .branch (local_skipWord "super") (bounded .lower) (local_pure _ _ _)

theorem localTo_typeArguments (careful : Careful type) (types : LocalTo bound bound' type type') :
    LocalTo bound bound' (typeArguments type) (typeArguments type') := by
  refine .branch (local_skip .less) ?_ (local_pure _ _ _)
  refine (localTo_separated .comma careful types).bind fun _ => ?_
  exact (local_expectKind _ _ _ _).bind fun _ => local_pure _ _ _

end Nested

theorem advances_qualifiedName {expected : Expected} : Advances (qualifiedName expected) := by
  refine advances_expectKind.bind fun first => careful_remaining fun lexemes => ?_
  exact carefulOn_continueWith (splitDotted_spec lexemes).2 (careful_pure _)

theorem localTo_typeWithin (depth depth' : Nat) (declared : Option Nullness) :
    LocalTo depth depth' (typeWithin depth declared) (typeWithin depth' declared) := by
  induction depth generalizing depth' declared with
  | zero => exact localTo_zero (careful_typeWithin 0)
  | succ depth ih =>
      cases depth' with
      | zero => exact localTo_nothing (careful_typeWithin (depth + 1))
      | succ depth' =>
          refine (local_currentLine _ _).bind fun line => ?_
          refine localTo_remaining fun lexemes lexemes' le le' => ?_
          refine (localTo_typeAnnotations line lexemes.length lexemes'.length declared).bind
            fun declared => LocalTo.mono ?_ le le'
          refine .branch_advance (local_skip .question) takes_of_skip ?_ ?_
          · exact (localTo_wildcardBound (ih depth' none)).bind fun _ => local_pure _ _ _
          · refine (local_qualifiedName _ _ _).advance advances_qualifiedName fun name => ?_
            refine (localTo_typeArguments (careful_typeWithin depth) (ih depth' none)).bind
              fun args => ?_
            refine (local_nullnessSuffix _ _).bind fun inner => ?_
            refine localTo_remaining fun behind behind' _ _ => ?_
            refine (localTo_arrayDims behind.length behind'.length).bind fun dims => ?_
            refine (local_skip _ _ _).bind fun varargs => ?_
            refine (local_nullnessSuffix _ _).bind fun outer => ?_
            exact (local_settleNullness _ _ _ _ _).bind fun _ => local_pure _ _ _

theorem advances_typeWithin (depth : Nat) (declared : Option Nullness) :
    Advances (typeWithin depth declared) := by
  cases depth with
  | zero =>
      intro context lexemes type rest read
      cases lexemes <;> cases read
  | succ depth =>
      refine .behind careful_currentLine fun line => advances_remaining fun lexemes => ?_
      refine .behind (careful_typeAnnotations line lexemes.length) fun declared => ?_
      refine .branch takes_of_skip careful_skip ?_ ?_
      · exact (careful_wildcardBound (careful_typeWithin depth)).bind fun _ => careful_pure
      · refine advances_qualifiedName.bind fun name => ?_
        refine (careful_typeArguments (careful_typeWithin depth)).bind fun args => ?_
        refine careful_nullnessSuffix.bind fun inner => careful_remaining fun behind => ?_
        refine ((careful_arrayDims behind.length).bind fun dims => ?_) behind
        refine careful_skip.bind fun varargs => careful_nullnessSuffix.bind fun outer => ?_
        exact careful_settleNullness.bind fun _ => careful_pure

theorem advances_typeRef {declared : Option Nullness} : Advances (typeRef declared) :=
  advances_remaining fun lexemes => advances_typeWithin lexemes.length declared

theorem local_typeRef (declared : Option Nullness) : Local (typeRef declared) := fun _ _ =>
  localTo_remaining fun lexemes lexemes' _ _ =>
    localTo_typeWithin lexemes.length lexemes'.length declared

theorem local_plainType : Local plainType := local_typeRef none

theorem advances_plainType : Advances plainType := advances_typeRef

theorem local_typeParam : Local typeParam := by
  refine fun _ _ => (local_expectKind _ _ _ _).bind fun name => ?_
  refine .branch (local_skipWord "extends") ?_ (local_pure _ _ _)
  exact (localTo_separated .ampersand careful_plainType (local_plainType _ _)).bind
    fun _ => local_pure _ _ _

theorem local_typeParams : Local typeParams := by
  refine fun _ _ => .branch (local_skip .less) ?_ (local_pure _ _ _)
  refine (localTo_separated .comma careful_typeParam (local_typeParam _ _)).bind fun _ => ?_
  exact (local_expectKind _ _ _ _).bind fun _ => local_pure _ _ _

end ApiCompat.Signature
