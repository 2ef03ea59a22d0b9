import ApiCompat.Proofs.Cursor.Slices
import ApiCompat.Proofs.Cursor.Tracks

/-!
# Names and annotations with a cursor

An annotation reaches from its sign to the lexeme before the cursor, and no
more of its parentheses are closed than were opened: a reader that stops
counting at zero counts the same (`tracks_annotationUse`).
-/

set_option autoImplicit false

namespace ApiCompat.Signature

open Reader
open Cursor (Source Walk Run Point Act Halt Part goesOn depthBehind)

variable {source : Source} {cursor bound next : Nat}

/-! ## Names -/

def dottedRest (name : String) : Reader String := do
  let cut := splitDotted (← remaining)
  continueWith cut.2
  return (cut.1.map Lexeme.text).foldl (fun sofar next => sofar ++ "." ++ next) name

theorem qualifiedName_eq (expected : Expected) : qualifiedName expected =
    identifier expected >>= fun first => dottedRest first.text := rfl

theorem dottedRest_goesOn {dot word : Lexeme} (on : goesOn (some dot) (some word) = true)
    (name : String) (context : Context) (rest : List Lexeme) :
    dottedRest name context (dot :: word :: rest) =
      dottedRest (name ++ "." ++ word.text) context rest := by
  have kinds : dot.kind = .dot ∧ word.kind = .identifier := by simpa [goesOn] using on
  have cut : splitDotted (dot :: word :: rest) =
      (word :: (splitDotted rest).1, (splitDotted rest).2) := by
    rw [splitDotted, if_pos kinds]
  show Except.ok _ = Except.ok _
  rw [cut]
  rfl

theorem dottedRest_stop {lexemes : List Lexeme} (stop : goesOn lexemes[0]? lexemes[1]? = false)
    (name : String) (context : Context) :
    dottedRest name context lexemes = .ok (name, lexemes) := by
  have cut : splitDotted lexemes = ([], lexemes) := by
    match lexemes with
    | [] => rfl
    | [_] => rfl
    | dot :: word :: rest =>
        have other : ¬(dot.kind = .dot ∧ word.kind = .identifier) := by
          intro kinds
          simp [goesOn, kinds] at stop
        rw [splitDotted, if_neg other]
  show Except.ok _ = Except.ok _
  rw [cut]
  rfl

theorem tracks_nameFrom (expected : Expected) :
    TracksRounds source bound (Cursor.nameFrom expected) (fun _ => dottedRest) SameValue := by
  refine tracksRounds (fun _ => rfl) fun cursor fuel _ name _ later => .look (.look ?_)
  show TracksAt source cursor
    (if goesOn source.lexemes[cursor]? source.lexemes[cursor + 1]? = true then _ else _) _
  cases on : goesOn source.lexemes[cursor]? source.lexemes[cursor + 1]? with
  | true =>
      rcases source.cases cursor with ⟨nothing, _⟩ | ⟨dot, isDot, within, whole⟩
      · rw [nothing] at on
        cases on
      rcases source.cases (cursor + 1) with ⟨nothing, _⟩ | ⟨word, isWord, within', whole'⟩
      · rw [nothing] at on
        simp [goesOn] at on
      rw [isDot, isWord] at on
      have kind : word.kind = .identifier := by
        simp only [goesOn, Option.any_some, Bool.and_eq_true, beq_iff_eq] at on
        exact on.2
      have left : dottedRest name source.context (source.behind cursor) =
          (identifier expected >>= fun next => dottedRest (name ++ "." ++ next.text))
            source.context (source.behind (cursor + 1)) := by
        rw [whole, whole', dottedRest_goesOn on, identifier,
          bind_ok (expectKind_here kind expected source.context _)]
      refine .move within left ?_
      refine (tracks_identifier (cursor + 1) (Nat.zero_le _)).andThen fun next cursor' onward => ?_
      exact later _ cursor' onward
  | false =>
      have stop : goesOn (source.behind cursor)[0]? (source.behind cursor)[1]? = false := by
        rwa [Source.behind, List.getElem?_drop, List.getElem?_drop]
      refine TracksTo.congr (tracksTo_pure rfl) ?_
      rw [dottedRest_stop stop]
      rfl

theorem tracks_qualifiedName (expected : Expected) :
    Tracks source bound (Cursor.qualifiedName expected) (qualifiedName expected) := by
  refine fun cursor behind => .part .name ?_ advances_qualifiedName
  rw [qualifiedName_eq]
  refine (tracks_identifier cursor behind).andThen fun first next onward => .look ?_
  exact (tracks_nameFrom expected).start first.text (behind.trans onward)

/-! ## Arguments -/

/-- Reads on behind `depth` open parentheses until the last of them is closed. -/
def argumentsRest (line depth : Nat) : Reader Unit := do
  match splitArguments depth (← remaining) with
  | none => failAt line .unterminatedArguments
  | some (_, rest) => continueWith rest

theorem annotationArguments_eq : annotationArguments = (do
    if ← isNext .leftParen then
      let line ← currentLine
      argumentsRest line 0
    else return ()) := rfl

/-- Where a parenthesis is open, or is opened next, counting does not go below zero. -/
theorem depthBehind_eq {depth : Nat} {next : Lexeme} (opened : 0 < depth ∨ next.kind = .leftParen) :
    depthBehind depth next.kind = (depthAfter depth next.kind : Nat) := by
  cases kind : next.kind
  case rightParen =>
    rw [kind] at opened
    have positive : 0 < depth := opened.resolve_right (by decide)
    show (depth : Int) - 1 = (depth - 1 : Nat)
    omega
  all_goals rfl

theorem argumentsRest_nil (line depth : Nat) (context : Context) :
    argumentsRest line depth context [] = failAt line .unterminatedArguments context [] := rfl

theorem argumentsRest_cons (line depth : Nat) (context : Context) (next : Lexeme)
    (rest : List Lexeme) : argumentsRest line depth context (next :: rest) =
      (if depthAfter depth next.kind = 0 then pure ()
        else argumentsRest line (depthAfter depth next.kind) : Reader Unit) context rest := by
  show (match splitArguments depth (next :: rest) with
    | none => failAt line .unterminatedArguments
    | some (_, rest) => continueWith rest : Reader Unit) context (next :: rest) = _
  rw [splitArguments_cons]
  split
  · rfl
  · show _ = (match splitArguments (depthAfter depth next.kind) rest with
      | none => failAt line .unterminatedArguments
      | some (_, rest) => continueWith rest : Reader Unit) context rest
    cases splitArguments (depthAfter depth next.kind) rest <;> rfl

abbrev StopsAt (source : Source) (stop : Nat) (_ : Unit) (next : Nat) : Prop :=
  source.lexemes[next - 1]?.map Lexeme.stop = some stop

theorem advance_none (nothing : source.lexemes[cursor]? = none) :
    Cursor.advance source cursor = ⟨.ok (none, cursor), []⟩ := by
  rw [Cursor.advance, Cursor.here, Cursor.look_bind, nothing]
  rfl

theorem advance_some {lexeme : Lexeme} (here : source.lexemes[cursor]? = some lexeme) :
    Cursor.advance source cursor = ⟨.ok (some lexeme, cursor + 1), [⟨cursor + 1, .move⟩]⟩ := by
  rw [Cursor.advance, Cursor.here, Cursor.look_bind, here]
  rfl

/-- One step over the arguments of an annotation, where a parenthesis is open or is opened. -/
theorem tracksTo_argumentsStep {line fuel depth : Nat}
    (opened : 0 < depth ∨ ∀ next ∈ source.lexemes[cursor]?, next.kind = .leftParen)
    (later : ∀ deeper next, cursor < next →
      TracksTo source next (Cursor.argumentsFrom line fuel (deeper + 1 : Nat))
        (argumentsRest line (deeper + 1)) (StopsAt source)) :
    TracksTo source cursor (Cursor.argumentsFrom line (fuel + 1) depth) (argumentsRest line depth)
      (StopsAt source) := by
  intro inside
  rcases source.cases cursor with ⟨nothing, atEnd⟩ | ⟨next, here, within, whole⟩
  · refine TracksTo.ran (advance_none nothing) (List.forall_mem_nil _) le_rfl inside rfl ?_ inside
    refine tracksTo_failAt.congr ?_
    rw [atEnd, argumentsRest_nil]
  · -- A parenthesis that is closed here was open: where none is, the first lexeme opens one.
    have below := depthBehind_eq (opened.imp_right fun opens => opens next here)
    have left := argumentsRest_cons line depth source.context next (source.behind (cursor + 1))
    rw [← whole] at left
    refine TracksTo.acts (advance_some here) trivial (Nat.le_succ cursor) within left ?_ inside
    show TracksTo source (cursor + 1) (Cursor.count (depthBehind depth next.kind) >>= fun _ =>
      if depthBehind depth next.kind = 0 then pure next.stop
      else Cursor.argumentsFrom line fuel (depthBehind depth next.kind)) _ _
    rw [below]
    generalize depthAfter depth next.kind = deeper
    have positive : (0 : Int) ≤ (deeper : Int) := Int.natCast_nonneg deeper
    have counted : Cursor.count deeper source (cursor + 1) =
        ⟨.ok ((), cursor + 1), [⟨cursor + 1, .count deeper⟩]⟩ := by
      rw [Cursor.count, if_pos positive]
    refine .acts counted positive le_rfl within rfl ?_
    cases deeper with
    | zero => exact tracksTo_pure (by rw [StopsAt, Nat.add_sub_cancel, here]; rfl)
    | succ deeper => exact later deeper (cursor + 1) (Nat.lt_succ_self cursor)

theorem tracks_argumentsFrom (line : Nat) :
    TracksRounds source bound (fun fuel deeper => Cursor.argumentsFrom line fuel (deeper + 1 : Nat))
      (fun _ deeper => argumentsRest line (deeper + 1)) (StopsAt source) :=
  tracksRounds (fun _ => rfl) fun _ _ _ deeper _ later =>
    tracksTo_argumentsStep (.inl (Nat.succ_pos deeper)) later

/-- Behind the name of an annotation its arguments may follow, and it stops where they do. -/
theorem tracksTo_annotationStop {nameStop : Nat} (stops : StopsAt source nameStop () cursor) :
    TracksTo source cursor (Cursor.annotationStop nameStop) annotationArguments
      (StopsAt source) := by
  rw [annotationArguments_eq]
  refine .choose (fun first here opening => .line fun line => .look ?_) fun _ => tracksTo_pure stops
  have within : cursor < source.lexemes.length := (List.getElem?_eq_some_iff.mp here).1
  refine tracksTo_argumentsStep (.inr (by simpa [here] using opening)) fun deeper next later => ?_
  exact tracks_argumentsFrom line next _ source.lexemes.length deeper (Nat.zero_le _) (by omega)
    (Nat.sub_le _ _)

/-! ## Annotations -/

def annotationName : Reader String := do
  let _ ← expect .atSign
  let name ← qualifiedName .annotationName
  annotationArguments
  return name

theorem annotationUse_eq : annotationUse = withSource annotationName := rfl

/-- The name is found, and the lexemes from the cursor on reach over these bytes. -/
abbrev SpansFrom (source : Source) (cursor : Nat) (value : String × Nat × Nat) (found : String)
    (next : Nat) : Prop :=
  value.1 = found ∧ Spans source cursor next value.2.1 value.2.2

/-- Behind a lexeme the one before the cursor can be looked up. -/
theorem lookUp_run (moved : 0 < cursor) (inside : cursor ≤ source.lexemes.length) :
    ∃ last, source.lexemes[cursor - 1]? = some last ∧
      Cursor.lookUp ((cursor : Int) - 1) source cursor =
        ⟨.ok (last, cursor), [⟨cursor, .lookUp ((cursor : Int) - 1)⟩]⟩ ∧
      Act.Safe source cursor (.lookUp ((cursor : Int) - 1)) := by
  have before : cursor - 1 < source.lexemes.length := by omega
  have index : ((cursor : Int) - 1).toNat = cursor - 1 := by omega
  have notBelow : (0 : Int) ≤ (cursor : Int) - 1 := by omega
  refine ⟨_, List.getElem?_eq_getElem before, ?_, notBelow, by omega⟩
  rw [Cursor.lookUp, if_pos notBelow, index, List.getElem?_eq_getElem before]

theorem tracksTo_annotationSpan :
    TracksTo source cursor Cursor.annotationSpan annotationName (SpansFrom source cursor) := by
  refine (tracks_expect cursor (Nat.zero_le _)).bind ?_
  rintro sign _ behindSign rfl _ readSign
  have whole := (expectKind_eq_ok readSign).1
  have first : source.lexemes[cursor]?.map Lexeme.start = some sign.start := by
    rw [← source.head?_behind, whole]
    rfl
  have moved : cursor < behindSign := @Source.lt_of_behind source cursor sign [] _ whole
  refine (tracks_qualifiedName _ behindSign (Nat.zero_le _)).andThen ?_
  refine fun name behindName onward => .look fun inside => ?_
  obtain ⟨last, before, found, safe⟩ := lookUp_run (moved.trans_le onward).pos inside
  refine TracksTo.acts found safe le_rfl inside rfl ?_ inside
  refine (tracksTo_annotationStop (by rw [StopsAt, before]; rfl)).bind ?_
  rintro stop _ next stops further _
  exact tracksTo_pure ⟨rfl, (moved.trans_le onward).trans_le further, first, stops⟩

theorem tracks_annotationUse : Tracks source bound Cursor.annotationUse annotationUse := by
  refine fun cursor _ => .part .annotationUse ?_ advances_annotationUse
  rw [annotationUse_eq]
  refine .remaining (tracksTo_annotationSpan.bind ?_)
  rintro ⟨name, start, stop⟩ _ next ⟨rfl, spans⟩ onward _ within
  obtain ⟨cut, safe⟩ := spans.slice_run within next
  -- The reader counts how many lexemes it took; they are those between the cursor's two places.
  have quoted : (remaining >>= fun after => pure (name, Lexeme.sourceText
      ((source.behind cursor).take ((source.behind cursor).length - after.length))) :
        Reader (String × String)) source.context (source.behind next) =
      (pure (name, Lexeme.sourceText (source.between cursor next)) : Reader (String × String))
        source.context (source.behind next) := by
    rw [bind_ok (remaining_apply _ _), source.take_behind onward within]
  exact TracksTo.acts cut safe le_rfl within quoted (tracks_pure next le_rfl) within

end ApiCompat.Signature
