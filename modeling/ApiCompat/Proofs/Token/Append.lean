import ApiCompat.Proofs.Token.Context

/-!
# Texts with a line feed between them

A line feed ends any lexeme and any comment.  So the lexemes of two texts with
a line feed between them are those of the first text and then those of the
second one, further down (`tokenize_append`).
-/

set_option autoImplicit false

namespace ApiCompat

/-! ## The seam -/

theorem lineFeeds_append (text later : List Char) :
    lineFeeds (text ++ later) = lineFeeds text + lineFeeds later := List.count_append

/-- A text of blanks and comments stays one before a line feed. -/
theorem splitGap_seam {inComment : Bool} {text : List Char}
    (blank : (splitGap inComment text).2 = []) (later : List Char) :
    splitGap inComment (text ++ '\n' :: later) =
      (text ++ '\n' :: (splitGap false later).1, (splitGap false later).2) := by
  induction text generalizing inComment with
  | nil => cases inComment <;> simp [splitGap, isGapChar]
  | cons c text ih =>
      simp only [splitGap] at blank
      rw [List.cons_append, splitGap]
      split at blank
      · next commented => simp [commented, ih blank]
      · next outside =>
          split at blank
          · next gap => simp [outside, gap, ih blank]
          · next filled =>
              split at blank
              · next opening =>
                  have second : (text ++ '\n' :: later).head? = some '/' := by
                    rw [List.head?_append, opening.2]
                    rfl
                  have slash : isGapChar '/' = false := by decide
                  simp [outside, opening.1, slash, second, ih blank]
              · cases blank

theorem follows_seam (text later : List Char) : Follows text (text ++ '\n' :: later) where
  head c first := by
    cases text with
    | nil =>
        obtain rfl := Option.some.inj first
        exact .inr (by decide)
    | cons _ _ => exact .inl first
  dots dots := by
    cases text with
    | nil => simp at dots
    | cons c text =>
        cases text with
        | nil => simp at dots
        | cons c' text => exact dots

/-! ## Line feeds in lexemes -/

theorem splitNumber_oneLine (afterExponent : Bool) (text : List Char) :
    '\n' ∉ (splitNumber afterExponent text).1 := by
  induction text generalizing afterExponent with
  | nil => simp [splitNumber]
  | cons c rest ih =>
      simp only [splitNumber]
      split
      · next part =>
          rw [List.mem_cons, not_or]
          refine ⟨?_, ih _⟩
          rintro rfl
          cases afterExponent <;> cases part
      · simp

theorem splitLiteral_oneLine (quote : Char) (text : List Char) :
    '\n' ∉ (splitLiteral quote text).1 := by
  fun_induction splitLiteral quote text with
  | case1 => simp
  | case2 => simp
  | case3 escaped rest notBreak later ih => simp [Ne.symm notBreak, later, ih]
  | case4 => simp
  | case5 => simp
  | case6 c rest _ _ notBreak later ih =>
      have other : '\n' ≠ c := fun same => notBreak (.inl same.symm)
      simp [other, later, ih]

/-- A lexeme stands on one line. -/
theorem firstToken_oneLine {text word after : List Char} {kind : TokenKind}
    (found : firstToken text = some (kind, word, after)) : '\n' ∉ word := by
  cases text with
  | nil => cases found
  | cons c rest =>
      simp only [firstToken] at found
      split at found
      · next start =>
          simp only [Option.some.injEq, Prod.mk.injEq] at found
          obtain ⟨_, rfl, _⟩ := found
          rw [List.mem_cons, not_or]
          refine ⟨?_, fun member => ?_⟩
          · rintro rfl
            cases start
          · have part := List.all_eq_true.mp (@List.all_takeWhile _ isIdentPart rest) '\n' member
            cases part
      · split at found
        · next number =>
            simp only [Option.some.injEq, Prod.mk.injEq] at found
            obtain ⟨_, rfl, _⟩ := found
            rw [List.mem_cons, not_or]
            refine ⟨?_, splitNumber_oneLine false rest⟩
            rintro rfl
            cases number
        · split at found
          · next kind' opens =>
              have quote : '\n' ≠ c := by
                rintro rfl
                cases opens
              have inner := splitLiteral_oneLine c rest
              split at found
              · next elements after' closed =>
                  simp only [Option.some.injEq, Prod.mk.injEq] at found
                  obtain ⟨_, rfl, _⟩ := found
                  rw [closed] at inner
                  simp [quote, inner]
              · cases found
          · split at found
            · simp only [Option.some.injEq, Prod.mk.injEq] at found
              obtain ⟨_, rfl, _⟩ := found
              decide
            · simp only [Option.map_eq_some_iff, Prod.mk.injEq] at found
              obtain ⟨kind', known, _, rfl, _⟩ := found
              rw [List.mem_singleton]
              rintro rfl
              cases known

/-! ## Lexemes further down -/

/-- The lexeme where `bytes` more bytes and `lines` more lines stand before it. -/
def Lexeme.down (bytes lines : Nat) (lexeme : Lexeme) : Lexeme :=
  { lexeme with start := lexeme.start + bytes, line := lexeme.line + lines }

/-- The lexemes with more blanks and comments before the first one. -/
def widen (gap : String) : List Lexeme → List Lexeme
  | [] => []
  | first :: rest => { first with gap := gap ++ first.gap } :: rest

section Steps

variable {start line : Nat} {text word after : List Char} {kind : TokenKind}

def lexemeAt (start line : Nat) (gap word : List Char) (kind : TokenKind) : Lexeme :=
  { kind, text := String.ofList word, gap := String.ofList gap,
    start := start + (String.ofList gap).utf8ByteSize, line := line + lineFeeds gap }

theorem tokenizeFrom_blank (blank : (splitGap false text).2 = []) :
    tokenizeFrom start line text = .ok [] := by
  rw [tokenizeFrom]
  simp [blank]

theorem tokenizeFrom_token (token : firstToken (splitGap false text).2 = some (kind, word, after)) :
    tokenizeFrom start line text =
      (let lexeme := lexemeAt start line (splitGap false text).1 word kind
       tokenizeFrom lexeme.stop lexeme.line after >>= fun later => .ok (lexeme :: later)) := by
  have filled : (splitGap false text).2.isEmpty = false := by
    cases shape : (splitGap false text).2 with
    | nil => simp [shape, firstToken] at token
    | cons _ _ => rfl
  rw [tokenizeFrom]
  simp only [filled, Bool.false_eq_true, if_false]
  split
  · next missing =>
      rw [token] at missing
      cases missing
  · next kind' word' after' found =>
      rw [token] at found
      obtain ⟨rfl, rfl, rfl⟩ : kind = kind' ∧ word = word' ∧ after = after' := by simpa using found
      simp only [lexemeAt]
      split
      · next later found => rw [found]; rfl
      · next fault found => rw [found]; rfl

theorem tokenizeFrom_stuck (filled : (splitGap false text).2 ≠ [])
    (missing : firstToken (splitGap false text).2 = none) :
    tokenizeFrom start line text = .error
      { line := line + lineFeeds (splitGap false text).1
        text := String.ofList (unreadableText (splitGap false text).2) } := by
  rw [tokenizeFrom]
  simp only [List.isEmpty_iff, filled, if_false]
  split
  · rfl
  · next found =>
      rw [missing] at found
      cases found

end Steps

def outcomeDown (bytes lines : Nat) :
    Except Unreadable (List Lexeme) → Except Unreadable (List Lexeme)
  | .ok lexemes => .ok (lexemes.map (Lexeme.down bytes lines))
  | .error place => .error { place with line := place.line + lines }

theorem outcomeDown_cons (bytes lines : Nat) (lexeme : Lexeme)
    (outcome : Except Unreadable (List Lexeme)) :
    outcomeDown bytes lines (outcome >>= fun later => .ok (lexeme :: later)) =
      outcomeDown bytes lines outcome >>= fun later =>
        .ok (lexeme.down bytes lines :: later) := by
  cases outcome <;> rfl

theorem lexemeAt_down (bytes lines start line : Nat) (gap word : List Char) (kind : TokenKind) :
    lexemeAt (start + bytes) (line + lines) gap word kind =
      (lexemeAt start line gap word kind).down bytes lines := by
  simp only [lexemeAt, Lexeme.down, Lexeme.mk.injEq, true_and]
  omega

theorem Lexeme.stop_down (bytes lines : Nat) (lexeme : Lexeme) :
    (lexeme.down bytes lines).stop = lexeme.stop + bytes := by
  simp only [Lexeme.stop, Lexeme.down]
  omega

/-- What stands before a text decides only where its lexemes are, or where it cannot be split. -/
theorem tokenizeFrom_outcomeDown (bytes lines start line : Nat) (text : List Char) :
    tokenizeFrom (start + bytes) (line + lines) text =
      outcomeDown bytes lines (tokenizeFrom start line text) := by
  induction size : text.length using Nat.strongRecOn generalizing start line text with
  | ind _ ih =>
      by_cases blank : (splitGap false text).2 = []
      · rw [tokenizeFrom_blank blank, tokenizeFrom_blank blank]
        rfl
      · cases token : firstToken (splitGap false text).2 with
        | none =>
            rw [tokenizeFrom_stuck blank token, tokenizeFrom_stuck blank token, Nat.add_right_comm]
            rfl
        | some cut =>
            obtain ⟨kind, word, after⟩ := cut
            have shorter := firstToken_length_lt _ _ _ _ token
            have bound := splitGap_length_le false text
            rw [tokenizeFrom_token token, tokenizeFrom_token token]
            simp only [lexemeAt_down, outcomeDown_cons, Lexeme.stop_down]
            exact congrArg (· >>= _) (ih after.length (by omega) _ _ after rfl)

theorem tokenizeFrom_down (bytes lines start line : Nat) (text : List Char)
    (lexemes : List Lexeme) (found : tokenizeFrom start line text = .ok lexemes) :
    tokenizeFrom (start + bytes) (line + lines) text =
      .ok (lexemes.map (Lexeme.down bytes lines)) := by
  rw [tokenizeFrom_outcomeDown, found]
  rfl

/-- The first lexeme of a text stays where it is when more text follows a line feed. -/
theorem firstToken_seam {text word after : List Char} {kind : TokenKind}
    (token : firstToken (splitGap false text).2 = some (kind, word, after)) (later : List Char) :
    (splitGap false (text ++ '\n' :: later)).1 = (splitGap false text).1 ∧
    firstToken (splitGap false (text ++ '\n' :: later)).2 =
      some (kind, word, after ++ '\n' :: later) := by
  have split := splitGap_append false text
  cases cut : splitGap false text with
  | mk gap rest =>
      rw [cut] at token split
      obtain ⟨rfl, filled⟩ := firstToken_append _ _ _ _ token
      cases word with
      | nil => exact absurd rfl filled
      | cons c word =>
          have again := splitGap_follow cut (follows_seam (word ++ after) later)
          have shape : gap ++ c :: (word ++ after ++ '\n' :: later) = text ++ '\n' :: later := by
            rw [← split]
            simp
          rw [shape] at again
          rw [again, List.append_assoc]
          exact ⟨rfl, firstToken_follow token (follows_seam after later)⟩

theorem lexemeAt_widen (start line : Nat) (front gap word : List Char) (kind : TokenKind) :
    lexemeAt start line (front ++ gap) word kind =
      { lexemeAt (start + (String.ofList front).utf8ByteSize) (line + lineFeeds front) gap word kind
        with gap := String.ofList front ++ String.ofList gap } := by
  simp only [lexemeAt, String.ofList_append, lineFeeds_append, Lexeme.mk.injEq,
    String.utf8ByteSize_append, true_and]
  omega

/-- Blanks and comments before a text are part of its first gap. -/
theorem tokenizeFrom_widen {text : List Char} (blank : (splitGap false text).2 = [])
    (start line : Nat) (later : List Char) :
    tokenizeFrom start line (text ++ '\n' :: later) =
      tokenizeFrom (start + (String.ofList (text ++ ['\n'])).utf8ByteSize)
          (line + lineFeeds (text ++ ['\n'])) later >>= fun lexemes =>
        .ok (widen (String.ofList (text ++ ['\n'])) lexemes) := by
  have seam := splitGap_seam blank later
  have gap : text ++ '\n' :: (splitGap false later).1 =
      (text ++ ['\n']) ++ (splitGap false later).1 := by simp
  rw [gap] at seam
  by_cases blank' : (splitGap false later).2 = []
  · rw [tokenizeFrom_blank blank', tokenizeFrom_blank (by rw [seam]; exact blank')]
    rfl
  · cases token : firstToken (splitGap false later).2 with
    | none =>
        rw [tokenizeFrom_stuck blank' token,
          tokenizeFrom_stuck (by rw [seam]; exact blank') (by rw [seam]; exact token), seam,
          lineFeeds_append, ← Nat.add_assoc]
        rfl
    | some cut =>
        obtain ⟨kind, word, after⟩ := cut
        have token' : firstToken (splitGap false (text ++ '\n' :: later)).2 =
            some (kind, word, after) := by rw [seam]; exact token
        rw [tokenizeFrom_token token, tokenizeFrom_token token', seam]
        simp only [lexemeAt_widen, bind_assoc]
        rfl

theorem tokenizeFrom_seam (start line : Nat) (text : List Char) (lexemes : List Lexeme)
    (found : tokenizeFrom start line text = .ok lexemes) {later : List Char}
    {more : List Lexeme} (found' : tokenizeFrom 0 1 later = .ok more) :
    ∃ bytes gap, tokenizeFrom start line (text ++ '\n' :: later) =
      .ok (lexemes ++ widen gap (more.map (Lexeme.down bytes (line + lineFeeds text)))) := by
  fun_induction tokenizeFrom start line text generalizing lexemes with
  | case1 start line text cut blank =>
      obtain rfl := Except.ok.inj found
      have down := tokenizeFrom_down (start + (String.ofList (text ++ ['\n'])).utf8ByteSize)
        (line + lineFeeds text) 0 1 later more found'
      have feeds : lineFeeds (text ++ ['\n']) = lineFeeds text + 1 := by
        rw [lineFeeds_append]
        rfl
      rw [Nat.zero_add, Nat.add_comm 1, Nat.add_assoc, ← feeds] at down
      refine ⟨start + (String.ofList (text ++ ['\n'])).utf8ByteSize,
        String.ofList (text ++ ['\n']), ?_⟩
      rw [tokenizeFrom_widen (List.isEmpty_iff.mp blank), down]
      rfl
  | case2 => cases found
  | case3 start line text cut start' line' filled kind word after token lexeme rest inner ih =>
      obtain rfl := Except.ok.inj found
      obtain ⟨bytes, gap, whole⟩ := ih rest inner
      obtain ⟨sameGap, token'⟩ := firstToken_seam token later
      have split := splitGap_append false text
      obtain ⟨front, _⟩ := firstToken_append _ _ _ _ token
      have oneLine : lineFeeds word = 0 := List.count_eq_zero.mpr (firstToken_oneLine token)
      have feeds : line + lineFeeds text = line' + lineFeeds after := by
        have inText := congrArg lineFeeds split
        rw [← front, lineFeeds_append, lineFeeds_append, oneLine] at inText
        simp only [line', cut]
        omega
      refine ⟨bytes, gap, ?_⟩
      rw [tokenizeFrom_token token', sameGap, feeds]
      exact congrArg (· >>= fun later => .ok (lexeme :: later)) whole
  | case4 => cases found

/-- The lexemes of both texts, those of the second one further down. -/
theorem tokenize_append {text later : String} {lexemes more : List Lexeme}
    (found : tokenize text = .ok lexemes) (found' : tokenize later = .ok more) :
    ∃ bytes gap, tokenize (text ++ "\n" ++ later) =
      .ok (lexemes ++ widen gap (more.map (Lexeme.down bytes (lineFeeds text.toList + 1)))) := by
  obtain ⟨bytes, gap, whole⟩ := tokenizeFrom_seam 0 1 text.toList lexemes found found'
  refine ⟨bytes, gap, ?_⟩
  have shape : (text ++ "\n" ++ later).toList = text.toList ++ '\n' :: later.toList := by
    simp
  rw [tokenize, shape, whole, Nat.add_comm 1]

end ApiCompat
