import ApiCompat.Token.Lexer

/-!
# Lexemes and the text that follows them

What is cut off at the front of a text does not depend on all the text behind
it.  `Follows rest rest'` says that `rest'` continues no lexeme which `rest`
did not continue; a lexeme before `rest` is then also one before `rest'`
(`firstToken_follow`).
-/

set_option autoImplicit false

namespace ApiCompat

/-- Whether a character can neither continue a lexeme nor make a comment of a slash. -/
def isStop (c : Char) : Bool :=
  !(isIdentPart c || isNumberPart c || c == '+' || c == '-' || c == '/')

def Stops (text : List Char) : Prop := ∀ c ∈ text.head?, isStop c = true

/-- A text that may take the place of another one behind a lexeme. -/
structure Follows (rest rest' : List Char) : Prop where
  head : ∀ c ∈ rest'.head?, c ∈ rest.head? ∨ isStop c = true
  dots : rest'.take 2 = ['.', '.'] → rest.take 2 = ['.', '.']

theorem isStop_spec {c : Char} (stop : isStop c = true) :
    isIdentPart c = false ∧ isNumberPart c = false ∧ c.isDigit = false ∧ c ≠ '+' ∧ c ≠ '-' ∧
      c ≠ '/' ∧ c ≠ '.' := by
  simp only [isStop, Bool.not_eq_true', Bool.or_eq_false_iff, beq_eq_false_iff_ne] at stop
  obtain ⟨⟨⟨⟨word, number⟩, plus⟩, minus⟩, slash⟩ := stop
  have parts := number
  simp only [isNumberPart, Bool.or_eq_false_iff, beq_eq_false_iff_ne] at parts
  simp only [Char.isAlphanum, Bool.or_eq_false_iff] at parts
  exact ⟨word, number, parts.1.1.2, plus, minus, slash, parts.2⟩

theorem stops_nil : Stops [] := by
  intro c member
  cases member

theorem stops_cons {c : Char} (stop : isStop c = true) (rest : List Char) : Stops (c :: rest) := by
  intro c' member
  obtain rfl := Option.some.inj member
  exact stop

theorem Stops.follows {rest' : List Char} (stops : Stops rest') (rest : List Char) :
    Follows rest rest' := by
  refine ⟨fun c first => .inr (stops c first), ?_⟩
  intro dots
  cases rest' with
  | nil => simp at dots
  | cons c later =>
      have dot : c = '.' := (List.cons.inj dots).1
      have notDot := (isStop_spec (stops c rfl)).2.2.2.2.2.2
      exact absurd dot notDot

theorem Follows.append_left {rest rest' : List Char} (follows : Follows rest rest')
    (front : List Char) : Follows (front ++ rest) (front ++ rest') := by
  cases front with
  | nil => exact follows
  | cons c front =>
      refine ⟨fun c' first => .inl first, ?_⟩
      intro dots
      cases front with
      | cons c' front => exact dots
      | nil =>
          obtain ⟨rfl, second⟩ := List.cons.inj dots
          cases rest' with
          | nil => simp at second
          | cons c' later =>
              obtain rfl : c' = '.' := (List.cons.inj second).1
              rcases follows.head '.' rfl with same | stop
              · cases rest with
                | nil => simp at same
                | cons first later =>
                    obtain rfl := Option.some.inj same
                    rfl
              · exact absurd rfl (isStop_spec stop).2.2.2.2.2.2

/-! ## Gaps -/

theorem splitGap_front {inComment : Bool} {text gap rest : List Char} {c : Char}
    (cut : splitGap inComment text = (gap, c :: rest)) :
    isGapChar c = false ∧ ¬(c = '/' ∧ rest.head? = some '/') := by
  induction text generalizing inComment gap with
  | nil => simp [splitGap] at cut
  | cons first later ih =>
      simp only [splitGap] at cut
      split at cut
      · exact ih (Prod.ext rfl (Prod.mk.inj cut).2)
      · split at cut
        · exact ih (Prod.ext rfl (Prod.mk.inj cut).2)
        · next filled =>
            split at cut
            · exact ih (Prod.ext rfl (Prod.mk.inj cut).2)
            · next noComment =>
                simp only [Prod.mk.injEq, List.cons.injEq] at cut
                obtain ⟨_, rfl, rfl⟩ := cut
                simp only [Bool.not_eq_true] at filled
                exact ⟨filled, noComment⟩

/-- A gap does not change when the text behind the character after it does. -/
theorem splitGap_follow {inComment : Bool} {text gap rest rest' : List Char} {c : Char}
    (cut : splitGap inComment text = (gap, c :: rest)) (follows : Follows rest rest') :
    splitGap inComment (gap ++ c :: rest') = (gap, c :: rest') := by
  obtain ⟨filled, noComment⟩ := splitGap_front cut
  have stillNoComment : ¬(c = '/' ∧ rest'.head? = some '/') := by
    rintro ⟨slash, second⟩
    rcases follows.head '/' second with same | stop
    · exact noComment ⟨slash, same⟩
    · exact absurd rfl (isStop_spec stop).2.2.2.2.2.1
  induction text generalizing inComment gap with
  | nil => simp [splitGap] at cut
  | cons first later ih =>
      simp only [splitGap] at cut
      split at cut
      · next commented =>
          simp only [Prod.mk.injEq] at cut
          obtain ⟨rfl, found⟩ := cut
          have inner := ih (Prod.ext rfl found)
          simp [splitGap, commented, inner]
      · next outside =>
          split at cut
          · next blank =>
              simp only [Prod.mk.injEq] at cut
              obtain ⟨rfl, found⟩ := cut
              have inner := ih (Prod.ext rfl found)
              simp [splitGap, outside, blank, inner]
          · next notBlank =>
              split at cut
              · next opening =>
                  simp only [Prod.mk.injEq] at cut
                  obtain ⟨rfl, found⟩ := cut
                  have inner := ih (Prod.ext rfl found)
                  have second : ((splitGap true later).1 ++ c :: rest').head? = some '/' := by
                    cases later with
                    | nil => simp at opening
                    | cons c' later =>
                        simp only [List.head?_cons, Option.some.injEq] at opening
                        simp [splitGap, opening.2]
                  obtain ⟨rfl, _⟩ := opening
                  simp [splitGap, outside, notBlank, second, inner]
              · simp only [Prod.mk.injEq, List.cons.injEq] at cut
                obtain ⟨rfl, rfl, rfl⟩ := cut
                simp only [Bool.not_eq_true] at outside
                simp [splitGap, outside, filled, stillNoComment]

/-! ## Lexemes -/

theorem takeWhile_follow {p : Char → Bool} (stopped : ∀ c, isStop c = true → p c = false)
    {text rest' : List Char} (follows : Follows (text.dropWhile p) rest') :
    (text.takeWhile p ++ rest').takeWhile p = text.takeWhile p ∧
      (text.takeWhile p ++ rest').dropWhile p = rest' := by
  have taken : ∀ c ∈ text.takeWhile p, p c = true :=
    List.all_eq_true.mp List.all_takeWhile
  have ends : rest'.takeWhile p = [] ∧ rest'.dropWhile p = rest' := by
    cases rest' with
    | nil => simp
    | cons c later =>
        have rejected : p c = false := by
          rcases follows.head c rfl with same | stop
          · have notP := List.head?_dropWhile_not p text
            rw [Option.mem_def.mp same] at notP
            simpa using notP
          · exact stopped c stop
        simp [rejected]
  rw [List.takeWhile_append_of_pos taken, List.dropWhile_append_of_pos taken, ends.1, ends.2]
  exact ⟨List.append_nil _, rfl⟩

theorem splitNumber_follow {afterExponent : Bool} {text rest' : List Char}
    (follows : Follows (splitNumber afterExponent text).2 rest') :
    splitNumber afterExponent ((splitNumber afterExponent text).1 ++ rest') =
      ((splitNumber afterExponent text).1, rest') := by
  induction text generalizing afterExponent with
  | nil =>
      cases rest' with
      | nil => rfl
      | cons c later =>
          have stop : isStop c = true := by simpa [splitNumber] using follows.head c rfl
          obtain ⟨_, number, _, plus, minus, _, _⟩ := isStop_spec stop
          simp [splitNumber, number, plus, minus]
  | cons c rest ih =>
      by_cases continues :
          (isNumberPart c || (afterExponent && (c == '+' || c == '-'))) = true
      · have cut : splitNumber afterExponent (c :: rest) =
            (c :: (splitNumber (c == 'e' || c == 'E') rest).1,
              (splitNumber (c == 'e' || c == 'E') rest).2) := by
          rw [splitNumber, if_pos continues]
        rw [cut] at follows ⊢
        rw [List.cons_append, splitNumber, if_pos continues, ih follows]
      · have cut : splitNumber afterExponent (c :: rest) = ([], c :: rest) := by
          rw [splitNumber, if_neg continues]
        rw [cut] at follows ⊢
        cases rest' with
        | nil => rfl
        | cons c' later =>
            rw [List.nil_append, splitNumber, if_neg]
            rcases follows.head c' rfl with same | stop
            · obtain rfl := Option.some.inj same
              exact continues
            · obtain ⟨_, number, _, plus, minus, _, _⟩ := isStop_spec stop
              simp [number, plus, minus]

theorem splitLiteral_follow {quote : Char} (plain : quote ≠ '\\') (text elements : List Char)
    {rest : List Char} (closed : splitLiteral quote text = (elements, some rest))
    (rest' : List Char) :
    splitLiteral quote (elements ++ quote :: rest') = (elements, some rest') := by
  fun_induction splitLiteral quote text generalizing elements with
  | case1 => simp at closed
  | case2 => simp at closed
  | case3 escaped text notBreak later ih =>
      simp only [Prod.mk.injEq] at closed
      obtain ⟨rfl, found⟩ := closed
      have inner : splitLiteral quote (later.1 ++ quote :: rest') = (later.1, some rest') :=
        ih later.1 (Prod.ext rfl found)
      simp [splitLiteral, notBreak, inner]
  | case4 text notEscape =>
      simp only [Prod.mk.injEq, Option.some.injEq] at closed
      obtain ⟨rfl, rfl⟩ := closed
      rw [List.nil_append, splitLiteral]
      · simp
      · intro escaped text' same
        exact fun _ => plain same
  | case5 => simp at closed
  | case6 c text notEscape notQuote notBreak later ih =>
      simp only [Prod.mk.injEq] at closed
      obtain ⟨rfl, found⟩ := closed
      have inner : splitLiteral quote (later.1 ++ quote :: rest') = (later.1, some rest') :=
        ih later.1 (Prod.ext rfl found)
      simp only [not_or] at notBreak
      rw [List.cons_append, splitLiteral]
      · simp [notQuote, notBreak, inner]
      · intro escaped text' same
        exact fun _ => notBreak.2 same

theorem literal?_spec {c : Char} {kind : TokenKind} (opens : literal? c = some kind) :
    c ≠ '\\' ∧ isIdentStart c = false ∧ c.isDigit = false ∧ c ≠ '-' := by
  unfold literal? at opens
  split at opens
  · decide
  · decide
  · simp at opens

theorem numberStart_follow {c : Char} {text : List Char}
    (start : (c.isDigit || (c == '-' && text.head?.any Char.isDigit)) = true)
    (rest' : List Char) :
    (c.isDigit || (c == '-' &&
      ((splitNumber false text).1 ++ rest').head?.any Char.isDigit)) = true := by
  cases text with
  | nil =>
      have digit : c.isDigit = true := by simpa using start
      simp [digit]
  | cons c' later =>
      by_cases digit : c'.isDigit = true
      · have part : isNumberPart c' = true := by simp [isNumberPart, Char.isAlphanum, digit]
        simpa [splitNumber, part] using start
      · simp only [List.head?_cons, Option.any_some, digit, Bool.and_false, Bool.or_false] at start
        simp [start]

theorem noNumberStart_follow {c : Char} {rest rest' : List Char}
    (noStart : ¬(c.isDigit || (c == '-' && rest.head?.any Char.isDigit)) = true)
    (follows : Follows rest rest') :
    ¬(c.isDigit || (c == '-' && rest'.head?.any Char.isDigit)) = true := by
  simp only [Bool.or_eq_true, Bool.and_eq_true, not_or, not_and] at noStart ⊢
  refine ⟨noStart.1, fun minus => ?_⟩
  cases rest' with
  | nil => simp
  | cons c' later =>
      rcases follows.head c' rfl with same | stop
      · have notDigit := noStart.2 minus
        rw [Option.mem_def.mp same] at notDigit
        exact notDigit
      · simp [(isStop_spec stop).2.2.1]

/-- A lexeme does not change when another text that may follow it does. -/
theorem firstToken_follow {text word rest rest' : List Char} {kind : TokenKind}
    (found : firstToken text = some (kind, word, rest)) (follows : Follows rest rest') :
    firstToken (word ++ rest') = some (kind, word, rest') := by
  cases text with
  | nil => simp [firstToken] at found
  | cons c later =>
      simp only [firstToken] at found
      split at found
      · next start =>
          simp only [Option.some.injEq, Prod.mk.injEq] at found
          obtain ⟨rfl, rfl, rfl⟩ := found
          obtain ⟨taken, left⟩ :=
            takeWhile_follow (fun c stop => (isStop_spec stop).1) follows
          rw [List.cons_append, firstToken, if_pos start, taken, left]
      · next notStart =>
          split at found
          · next number =>
              simp only [Option.some.injEq, Prod.mk.injEq] at found
              obtain ⟨rfl, rfl, rfl⟩ := found
              have again := numberStart_follow number rest'
              rw [List.cons_append, firstToken, if_neg notStart, if_pos again,
                splitNumber_follow follows]
          · next notNumber =>
              split at found
              · next kind' opens =>
                  obtain ⟨plain, _, notDigit, notMinus⟩ := literal?_spec opens
                  split at found
                  · next elements after closed =>
                      simp only [Option.some.injEq, Prod.mk.injEq] at found
                      obtain ⟨rfl, rfl, rfl⟩ := found
                      have again := splitLiteral_follow plain later elements closed rest'
                      simp [firstToken, notStart, notDigit, notMinus, opens, again]
                  · simp at found
              · next noLiteral =>
                  split at found
                  · next dots =>
                      simp only [Option.some.injEq, Prod.mk.injEq] at found
                      obtain ⟨rfl, rfl, rfl⟩ := found
                      rfl
                  · next notDots =>
                      simp only [Option.map_eq_some_iff, Prod.mk.injEq] at found
                      obtain ⟨kind', single, rfl, rfl, rfl⟩ := found
                      have stillNoNumber := noNumberStart_follow notNumber follows
                      have stillNoDots : ¬(c = '.' ∧ rest'.take 2 = ['.', '.']) :=
                        fun dots => notDots ⟨dots.1, follows.dots dots.2⟩
                      simp only [List.cons_append, List.nil_append]
                      rw [firstToken, if_neg notStart, if_neg stillNoNumber, noLiteral]
                      simp [stillNoDots, single]

end ApiCompat
