import ApiCompat.Proofs.Token.Context
import ApiCompat.Proofs.Token.Pattern
import Mathlib.Data.List.TakeWhile

/-!
# Longest matches

What is cut off at the front of a text is the longest piece that any pattern
matches there, and only one pattern matches it (`Longest`).  Where nothing can
be cut off, no pattern matches (`Stuck`).
-/

set_option autoImplicit false

open scoped Computability

namespace ApiCompat

/-- The word at the front of the text is the longest one that any pattern
matches, and `rule` is the only one that matches it. -/
structure Longest (text : List Char) (rule : LexRule) (word after : List Char) : Prop where
  whole : word ++ after = text
  filled : word ≠ []
  matched : word ∈ rule.pattern
  longest : ∀ (other : LexRule), ∀ front ∈ other.pattern, front <+: text →
    front.length ≤ word.length
  only : ∀ (other : LexRule), word ∈ other.pattern → other = rule

/-- No pattern matches at the front of the text. -/
def Stuck (text : List Char) : Prop :=
  ∀ (rule : LexRule), ∀ front ∈ rule.pattern, ¬ front <+: text

/-! ## Repetitions -/

/-- What holds of the empty word and of one more piece holds of every repetition. -/
theorem kstar_induction {pieces : Language Char} {motive : List Char → Prop} (nil : motive [])
    (more : ∀ piece ∈ pieces, ∀ rest ∈ pieces∗, motive rest → motive (piece ++ rest)) :
    ∀ word ∈ pieces∗, motive word := by
  intro word repeated
  obtain ⟨parts, rfl, known⟩ := Language.mem_kstar.mp repeated
  clear repeated
  induction parts with
  | nil => exact nil
  | cons piece parts ih =>
      obtain ⟨first, later⟩ := List.forall_mem_cons.mp known
      exact more piece first _ (Language.join_mem_kstar later) (ih later)

theorem append_mem_kstar {pieces : Language Char} {piece rest : List Char} (first : piece ∈ pieces)
    (later : rest ∈ pieces∗) : piece ++ rest ∈ pieces∗ := by
  rw [← Language.one_add_self_mul_kstar_eq_kstar]
  exact .inr (Language.append_mem_mul first later)

/-! ## Numbers -/

def isExponent (c : Char) : Bool := c == 'e' || c == 'E'

def isSign (c : Char) : Bool := c == '+' || c == '-'

theorem numberTail_eq : numberTail = (oneOf isNumberPart + oneOf isExponent * oneOf isSign)∗ := by
  have parts : (fun c => isDecimal c || isLetter c || c == '_' || c == '.') = isNumberPart :=
    funext isNumberPart_eq
  rw [numberTail, parts]
  rfl

theorem isNumberPart_of_isExponent {c : Char} (exponent : isExponent c = true) :
    isNumberPart c = true := by
  simp only [isExponent, Bool.or_eq_true, beq_iff_eq] at exponent
  rcases exponent with rfl | rfl <;> decide

theorem numberTail_part {c : Char} {rest : List Char} (part : isNumberPart c = true)
    (tail : rest ∈ numberTail) : c :: rest ∈ numberTail := by
  rw [numberTail_eq] at tail ⊢
  exact append_mem_kstar (.inl ⟨c, part, rfl⟩) tail

theorem numberTail_sign {c sign : Char} {rest : List Char} (exponent : isExponent c = true)
    (signed : isSign sign = true) (tail : rest ∈ numberTail) : c :: sign :: rest ∈ numberTail := by
  rw [numberTail_eq] at tail ⊢
  exact append_mem_kstar (.inr (mem_oneOf_mul.mpr ⟨c, _, exponent, ⟨sign, signed, rfl⟩, rfl⟩)) tail

/-- What is cut off continues a number.  After the letter of an exponent it may
begin with a sign, so there the letter belongs to it. -/
theorem splitNumber_mem (text : List Char) :
    (splitNumber false text).1 ∈ numberTail ∧
      ∀ c, isExponent c = true → c :: (splitNumber true text).1 ∈ numberTail := by
  have none : [] ∈ numberTail := Language.nil_mem_kstar _
  induction text with
  | nil =>
      exact ⟨none, fun c exponent => numberTail_part (isNumberPart_of_isExponent exponent) none⟩
  | cons first rest ih =>
      have next : first :: (splitNumber (isExponent first) rest).1 ∈ numberTail ∨
          isNumberPart first = false := by
        cases part : isNumberPart first with
        | false => exact .inr rfl
        | true =>
            cases exponent : isExponent first with
            | true => exact .inl (ih.2 first exponent)
            | false => exact .inl (numberTail_part part ih.1)
      constructor
      · simp only [splitNumber, Bool.false_and, Bool.or_false]
        split
        · next part => exact next.resolve_right (by simp [part])
        · exact none
      · intro c exponent
        have letter := isNumberPart_of_isExponent exponent
        simp only [splitNumber, Bool.true_and]
        split
        · next continues =>
            cases part : isNumberPart first with
            | true => exact numberTail_part letter (next.resolve_right (by simp [part]))
            | false =>
                rw [part, Bool.false_or] at continues
                have noExponent : (first == 'e' || first == 'E') = false := by
                  simp only [Bool.or_eq_true, beq_iff_eq] at continues
                  rcases continues with rfl | rfl <;> rfl
                rw [noExponent]
                exact numberTail_sign exponent continues ih.1
        · exact numberTail_part letter none

/-- Nothing longer continues the number. -/
theorem splitNumber_longest :
    ∀ word ∈ numberTail, ∀ (afterExponent : Bool) (after : List Char),
      word.length ≤ (splitNumber afterExponent (word ++ after)).1.length := by
  rw [numberTail_eq]
  apply kstar_induction
  · intro afterExponent after
    exact Nat.zero_le _
  · intro piece known rest _ ih afterExponent after
    rcases known with ⟨c, part, rfl⟩ | pair
    · have inner := ih (isExponent c) after
      simp only [List.cons_append, List.nil_append, splitNumber, part, Bool.true_or, if_true,
        List.length_cons]
      exact Nat.succ_le_succ inner
    · obtain ⟨c, _, exponent, ⟨sign, signed, rfl⟩, rfl⟩ := mem_oneOf_mul.mp pair
      have part := isNumberPart_of_isExponent exponent
      have inner := ih (isExponent sign) after
      simp only [isExponent, isSign] at exponent signed inner
      simp only [List.cons_append, List.nil_append, splitNumber, part, exponent, signed,
        Bool.true_or, Bool.true_and, Bool.or_true, if_true, List.length_cons]
      exact Nat.succ_le_succ (Nat.succ_le_succ inner)

/-! ## Literals -/

theorem quotedText_plain {quote c : Char} {rest : List Char} (notQuote : c ≠ quote)
    (notBreak : ¬(c = '\n' ∨ c = '\\')) (inner : rest ∈ quotedText quote) :
    c :: rest ∈ quotedText quote := by
  simp only [not_or] at notBreak
  refine append_mem_kstar (.inl ⟨c, ?_, rfl⟩) inner
  simp [notQuote, notBreak]

theorem quotedText_escape {quote escaped : Char} {rest : List Char} (notBreak : escaped ≠ '\n')
    (inner : rest ∈ quotedText quote) : '\\' :: escaped :: rest ∈ quotedText quote := by
  refine append_mem_kstar (.inr (mem_exactly_mul.mpr ⟨[escaped], ⟨escaped, ?_, rfl⟩, rfl⟩)) inner
  simp [notBreak]

theorem splitLiteral_mem (quote : Char) (text : List Char) :
    (splitLiteral quote text).1 ∈ quotedText quote := by
  have none : [] ∈ quotedText quote := Language.nil_mem_kstar _
  fun_induction splitLiteral quote text with
  | case1 => exact none
  | case2 => exact none
  | case3 escaped rest notBreak later ih => exact quotedText_escape notBreak ih
  | case4 => exact none
  | case5 => exact none
  | case6 c rest _ notQuote notBreak later ih => exact quotedText_plain notQuote notBreak ih

/-- A text in quotes is read up to its closing quote, whatever follows. -/
theorem splitLiteral_closed {quote : Char} (plain : quote ≠ '\\') :
    ∀ elements ∈ quotedText quote, ∀ after : List Char,
      splitLiteral quote (elements ++ quote :: after) = (elements, some after) := by
  apply kstar_induction
  · intro after
    rw [List.nil_append, splitLiteral]
    · simp
    · intro escaped text same
      exact fun _ => plain same
  · intro piece known rest _ ih after
    rcases known with ⟨c, single, rfl⟩ | escape
    · simp only [Bool.and_eq_true, bne_iff_ne] at single
      obtain ⟨⟨notQuote, notEscape⟩, notBreak⟩ := single
      rw [List.cons_append, List.cons_append, splitLiteral]
      · simp [notQuote, notEscape, notBreak, ih after]
      · intro escaped text same
        exact fun _ => notEscape same
    · obtain ⟨_, ⟨escaped, notBreak, rfl⟩, rfl⟩ := mem_exactly_mul.mp escape
      have other : escaped ≠ '\n' := by simpa using notBreak
      have shape : ("\\".toList ++ [escaped]) ++ rest ++ quote :: after =
          '\\' :: escaped :: (rest ++ quote :: after) := by simp
      rw [shape, splitLiteral, if_neg other, ih after]
      rfl

/-! ## Lexemes -/

/-- No gap stands at the front of the text. -/
def Solid (text : List Char) : Prop :=
  ∀ c rest, text = c :: rest → isGapChar c = false ∧ ¬(c = '/' ∧ rest.head? = some '/')

theorem solid_of_splitGap {inComment : Bool} {text gap rest : List Char}
    (cut : splitGap inComment text = (gap, rest)) : Solid rest := by
  rintro c later rfl
  exact splitGap_front cut

theorem LexRule.Matches.ne_nil {rule : LexRule} {word : List Char} (matched : rule.Matches word) :
    word ≠ [] := by
  cases matched <;> exact List.cons_ne_nil _ _

theorem isDigit_ne {c other : Char} (digit : c.isDigit = true) (notDigit : other.isDigit = false) :
    c ≠ other := by
  rintro rfl
  rw [digit] at notDigit
  cases notDigit

theorem isDigit_spec {c : Char} (digit : c.isDigit = true) :
    isIdentStart c = false ∧ isNumberPart c = true ∧ isExponent c = false := by
  have notLetter : c.isAlpha = false := by
    have nine : '9'.val.toNat = 57 := rfl
    have upper : 'A'.val.toNat = 65 := rfl
    have lower : 'a'.val.toNat = 97 := rfl
    rw [← isDecimal_eq] at digit
    rw [← isLetter_eq]
    simp only [isDecimal, isLetter, inRange, Bool.and_eq_true, Bool.or_eq_false_iff,
      Bool.and_eq_false_iff, decide_eq_true_eq, decide_eq_false_iff_not, Char.le_def,
      UInt32.le_iff_toNat_le] at digit ⊢
    omega
  refine ⟨?_, by simp [isNumberPart, Char.isAlphanum, digit], ?_⟩
  · simp [isIdentStart, notLetter, isDigit_ne digit (show '_'.isDigit = false by decide),
      isDigit_ne digit (show '$'.isDigit = false by decide)]
  · simp [isExponent, isDigit_ne digit (show 'e'.isDigit = false by decide),
      isDigit_ne digit (show 'E'.isDigit = false by decide)]

theorem splitNumber_digit {c : Char} (digit : c.isDigit = true) (afterExponent : Bool)
    (rest : List Char) :
    splitNumber afterExponent (c :: rest) =
      (c :: (splitNumber false rest).1, (splitNumber false rest).2) := by
  obtain ⟨_, part, noExponent⟩ := isDigit_spec digit
  rw [isExponent] at noExponent
  rw [splitNumber, part, Bool.true_or, if_pos rfl, noExponent]

theorem punctuation?_spec {c : Char} {kind : TokenKind} (known : punctuation? c = some kind) :
    isIdentStart c = false ∧ c.isDigit = false ∧ literal? c = none ∧ isGapChar c = false := by
  unfold punctuation? at known
  split at known
  case h_27 => cases known
  all_goals decide

theorem firstToken_mem {text word after : List Char} {kind : TokenKind}
    (found : firstToken text = some (kind, word, after)) : word ∈ (LexRule.token kind).pattern := by
  rw [mem_pattern_iff]
  cases text with
  | nil => cases found
  | cons c rest =>
      simp only [firstToken] at found
      split at found
      · next start =>
          simp only [Option.some.injEq, Prod.mk.injEq] at found
          obtain ⟨rfl, rfl, _⟩ := found
          exact .identifier start fun _ => List.mem_takeWhile_imp
      · split at found
        · next number =>
            simp only [Option.some.injEq, Prod.mk.injEq] at found
            obtain ⟨rfl, rfl, _⟩ := found
            by_cases digit : c.isDigit = true
            · exact .number digit (splitNumber_mem rest).1
            · simp only [digit, Bool.false_or, Bool.and_eq_true, beq_iff_eq] at number
              obtain ⟨rfl, next⟩ := number
              cases rest with
              | nil => simp at next
              | cons first more =>
                  rw [List.head?_cons, Option.any_some] at next
                  rw [splitNumber_digit next]
                  exact .negative next (splitNumber_mem more).1
        · split at found
          · next kind' opens =>
              split at found
              · next elements after' closed =>
                  simp only [Option.some.injEq, Prod.mk.injEq] at found
                  obtain ⟨rfl, rfl, _⟩ := found
                  have inner := splitLiteral_mem c rest
                  rw [closed] at inner
                  exact .literal opens inner
              · cases found
          · split at found
            · next dots =>
                simp only [Option.some.injEq, Prod.mk.injEq] at found
                obtain ⟨rfl, rfl, _⟩ := found
                exact .ellipsis
            · simp only [Option.map_eq_some_iff, Prod.mk.injEq] at found
              obtain ⟨_, known, rfl, rfl, _⟩ := found
              exact .single known

/-- The first lexeme of a text is no shorter than a word at its front, and it is
of the kind of the word if it is no longer either. -/
theorem firstToken_covers {rule : LexRule} {word after : List Char} (matched : rule.Matches word)
    (solid : Solid (word ++ after)) :
    ∃ kind found rest, firstToken (word ++ after) = some (kind, found, rest) ∧
      word.length ≤ found.length ∧ (word = found → rule = .token kind) := by
  cases matched with
  | @blanks c rest all =>
      have gap := all c List.mem_cons_self
      rw [(solid c (rest ++ after) rfl).1] at gap
      cases gap
  | comment oneLine => exact absurd ⟨rfl, rfl⟩ (solid '/' _ rfl).2
  | @identifier c rest start parts =>
      rw [List.cons_append, firstToken, if_pos start, List.takeWhile_append_of_pos parts]
      refine ⟨_, _, _, rfl, ?_, fun _ => rfl⟩
      simp
  | @number c rest digit tail =>
      have notStart := (isDigit_spec digit).1
      rw [List.cons_append, firstToken, if_neg (by simp [notStart]), if_pos (by simp [digit])]
      exact ⟨_, _, _, rfl, Nat.succ_le_succ (splitNumber_longest _ tail false after), fun _ => rfl⟩
  | @negative c rest digit tail =>
      have unsigned := numberTail_part (isDigit_spec digit).2.1 tail
      have longer := splitNumber_longest _ unsigned false after
      rw [List.cons_append, firstToken, if_neg (by decide), if_pos (by simp [digit])]
      exact ⟨_, _, _, rfl, Nat.succ_le_succ longer, fun _ => rfl⟩
  | @literal c kind elements opens inner =>
      obtain ⟨plain, notStart, notDigit, notMinus⟩ := literal?_spec opens
      have closed := splitLiteral_closed plain elements inner after
      refine ⟨kind, c :: (elements ++ [c]), after, ?_, le_rfl, fun _ => rfl⟩
      simp [firstToken, notStart, notDigit, notMinus, opens, closed]
  | ellipsis => exact ⟨.ellipsis, ['.', '.', '.'], after, rfl, le_rfl, fun _ => rfl⟩
  | @single c kind known =>
      obtain ⟨notStart, notDigit, notLiteral, _⟩ := punctuation?_spec known
      rw [List.singleton_append, firstToken, if_neg (by simp [notStart]), notLiteral]
      split
      · next number =>
          rw [notDigit, Bool.false_or, Bool.and_eq_true] at number
          cases after with
          | nil => simp at number
          | cons first more =>
              rw [splitNumber_digit (by simpa using number.2)]
              exact ⟨_, _, _, rfl, by simp, by simp⟩
      · -- only the ellipsis begins with punctuation and goes on
        dsimp only
        split
        · exact ⟨_, _, _, rfl, by simp, by simp⟩
        · rw [known]
          exact ⟨_, _, _, rfl, le_rfl, fun _ => rfl⟩

theorem firstToken_longest {text word after : List Char} {kind : TokenKind} (solid : Solid text)
    (found : firstToken text = some (kind, word, after)) :
    Longest text (.token kind) word after := by
  obtain ⟨whole, filled⟩ := firstToken_append _ _ _ _ found
  -- whatever matches at the front is covered by the lexeme that was found, as there is only one
  have covered : ∀ (rule : LexRule), ∀ front ∈ rule.pattern, front <+: text →
      front.length ≤ word.length ∧ (front = word → rule = .token kind) := by
    intro rule front matched begins
    obtain ⟨rest, rfl⟩ := begins
    obtain ⟨_, _, _, found', longer, same⟩ := firstToken_covers (mem_pattern_iff.mp matched) solid
    rw [found, Option.some.injEq, Prod.mk.injEq, Prod.mk.injEq] at found'
    obtain ⟨rfl, rfl, rfl⟩ := found'
    exact ⟨longer, same⟩
  refine ⟨whole, filled, firstToken_mem found, ?_, ?_⟩
  · intro rule front matched begins
    exact (covered rule front matched begins).1
  · intro rule matched
    exact (covered rule word matched ⟨after, whole⟩).2 rfl

theorem stuck_of_firstToken {text : List Char} (solid : Solid text)
    (missing : firstToken text = none) : Stuck text := by
  rintro rule front matched ⟨rest, rfl⟩
  obtain ⟨_, _, _, found, _⟩ := firstToken_covers (mem_pattern_iff.mp matched) solid
  rw [missing] at found
  cases found

/-! ## Blanks and comments -/

theorem isGapChar_spec {c : Char} (gap : isGapChar c = true) :
    isIdentStart c = false ∧ c.isDigit = false ∧ literal? c = none ∧ punctuation? c = none ∧
      c ≠ '/' ∧ c ≠ '-' ∧ c ≠ '.' := by
  simp only [isGapChar, Bool.or_eq_true, beq_iff_eq] at gap
  rcases gap with (((rfl | rfl) | rfl) | rfl) | rfl <;> decide

theorem LexRule.Matches.of_gap {rule : LexRule} {c : Char} {rest : List Char}
    (matched : rule.Matches (c :: rest)) (gap : isGapChar c = true) :
    rule = .blanks ∧ ∀ c' ∈ c :: rest, isGapChar c' = true := by
  obtain ⟨notStart, notDigit, notLiteral, notSingle, notSlash, notMinus, notDot⟩ :=
    isGapChar_spec gap
  cases matched with
  | blanks all => exact ⟨rfl, all⟩
  | comment => exact absurd rfl notSlash
  | identifier start => simp [notStart] at start
  | number digit => simp [notDigit] at digit
  | negative => exact absurd rfl notMinus
  | literal opens => simp [notLiteral] at opens
  | ellipsis => exact absurd rfl notDot
  | single known => simp [notSingle] at known

theorem LexRule.Matches.of_slashes {rule : LexRule} {word rest : List Char}
    (matched : rule.Matches word) (begins : word <+: '/' :: '/' :: rest) :
    (rule = .comment ∧ ∀ c ∈ word, (c != '\n') = true) ∨ word = ['/'] := by
  have first : word.head? = some '/' := by
    obtain ⟨later, whole⟩ := begins
    cases word with
    | nil => exact absurd rfl matched.ne_nil
    | cons c word =>
        obtain rfl := (List.cons.inj whole).1
        rfl
  cases matched with
  | comment oneLine => exact .inl ⟨rfl, by simpa using oneLine⟩
  | single known => exact .inr (by simpa using first)
  | negative | ellipsis => simp at first
  | blanks all =>
      obtain rfl := Option.some.inj first
      exact absurd (all '/' List.mem_cons_self) (by decide)
  | identifier bad | number bad =>
      obtain rfl := Option.some.inj first
      exact absurd bad (by decide)
  | literal opens =>
      obtain rfl := Option.some.inj first
      cases opens

theorem length_le_takeWhile {inClass : Char → Bool} {front text : List Char}
    (begins : front <+: text) (all : ∀ c ∈ front, inClass c = true) :
    front.length ≤ (text.takeWhile inClass).length := by
  obtain ⟨rest, rfl⟩ := begins
  rw [List.takeWhile_append_of_pos all, List.length_append]
  exact Nat.le_add_right _ _

theorem blanks_longest {c : Char} (gap : isGapChar c = true) (rest : List Char) :
    Longest (c :: rest) .blanks ((c :: rest).takeWhile isGapChar)
      ((c :: rest).dropWhile isGapChar) := by
  have shape : (c :: rest).takeWhile isGapChar = c :: rest.takeWhile isGapChar :=
    List.takeWhile_cons_of_pos gap
  refine ⟨List.takeWhile_append_dropWhile, by simp [shape], ?_, ?_, ?_⟩
  · have all : ∀ c' ∈ (c :: rest).takeWhile isGapChar, isGapChar c' = true :=
      fun _ => List.mem_takeWhile_imp
    rw [mem_pattern_iff, shape]
    exact .blanks (by rwa [shape] at all)
  · intro rule front matched begins
    have shaped := mem_pattern_iff.mp matched
    obtain ⟨c', front, rfl⟩ := List.exists_cons_of_ne_nil shaped.ne_nil
    obtain ⟨rfl, _⟩ := List.cons_prefix_cons.mp begins
    exact length_le_takeWhile begins (shaped.of_gap gap).2
  · intro rule matched
    rw [shape] at matched
    exact ((mem_pattern_iff.mp matched).of_gap gap).1

theorem comment_longest (rest : List Char) :
    Longest ('/' :: '/' :: rest) .comment (('/' :: '/' :: rest).takeWhile (· != '\n'))
      (('/' :: '/' :: rest).dropWhile (· != '\n')) := by
  have shape : ('/' :: '/' :: rest).takeWhile (· != '\n') =
      '/' :: '/' :: rest.takeWhile (· != '\n') := by
    rw [List.takeWhile_cons_of_pos (by decide), List.takeWhile_cons_of_pos (by decide)]
  have begins : ('/' :: '/' :: rest).takeWhile (· != '\n') <+: '/' :: '/' :: rest :=
    List.takeWhile_prefix _
  refine ⟨List.takeWhile_append_dropWhile, by simp [shape], ?_, ?_, ?_⟩
  · rw [mem_pattern_iff, shape]
    refine .comment fun c member => ?_
    simpa using List.mem_takeWhile_imp member
  · intro rule front matched starts
    rcases (mem_pattern_iff.mp matched).of_slashes starts with ⟨_, oneLine⟩ | rfl
    · exact length_le_takeWhile starts oneLine
    · simp [shape]
  · intro rule matched
    rcases (mem_pattern_iff.mp matched).of_slashes begins with ⟨same, _⟩ | single
    · exact same
    · simp [shape] at single

/-! ### Cutting them off -/

theorem splitGap_blanks {run : List Char} (all : ∀ c ∈ run, isGapChar c = true)
    (rest : List Char) :
    splitGap false (run ++ rest) = (run ++ (splitGap false rest).1, (splitGap false rest).2) := by
  induction run with
  | nil => rfl
  | cons c run ih =>
      obtain ⟨gap, later⟩ := List.forall_mem_cons.mp all
      simp [splitGap, gap, ih later]

/-- A comment ends before a line feed or with the text. -/
theorem splitGap_inComment {run rest : List Char} (oneLine : ∀ c ∈ run, (c != '\n') = true)
    (ends : ∀ c ∈ rest.head?, c = '\n') :
    splitGap true (run ++ rest) = (run ++ (splitGap false rest).1, (splitGap false rest).2) := by
  induction run with
  | nil =>
      cases rest with
      | nil => rfl
      | cons c rest =>
          obtain rfl := ends c rfl
          rfl
  | cons c run ih =>
      obtain ⟨inLine, later⟩ := List.forall_mem_cons.mp oneLine
      simp [splitGap, inLine, ih later]

theorem splitGap_comment {run rest : List Char} (oneLine : ∀ c ∈ run, (c != '\n') = true)
    (ends : ∀ c ∈ rest.head?, c = '\n') :
    splitGap false ('/' :: '/' :: run ++ rest) =
      ('/' :: '/' :: run ++ (splitGap false rest).1, (splitGap false rest).2) := by
  have slash : isGapChar '/' = false := by decide
  have inner := splitGap_inComment oneLine ends
  simp [splitGap, slash, inner]

end ApiCompat
