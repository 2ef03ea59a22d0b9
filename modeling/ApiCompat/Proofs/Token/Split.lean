import ApiCompat.Proofs.Token.Append
import ApiCompat.Proofs.Token.Longest
import ApiCompat.Proofs.Token.Source

/-!
# Texts cut into longest matches

A source is cut from its front into pieces, each the longest that any pattern
matches there (`Splits`).  Blanks and comments are dropped, the other pieces
are the lexemes.  `tokenize` cuts sources like this, and where it fails it does
so at the first place where no pattern matches (`tokenize_splits`).
-/

set_option autoImplicit false

open scoped Computability

namespace ApiCompat

/-- Whether the pieces that the rule matches are dropped. -/
def LexRule.isSkipped : LexRule → Bool
  | blanks | comment => true
  | token _ => false

/-- The text behind `before` is cut into longest matches up to `tail`; `gap` has
been dropped since the last lexeme. -/
inductive Splits (tail : List Char) : List Char → List Char → List Char → List Lexeme → Prop
  | done {before gap : List Char} : Splits tail before gap tail []
  | skip {before gap text word after : List Char} {rule : LexRule} {lexemes : List Lexeme}
      (longest : Longest text rule word after) (skipped : rule.isSkipped = true)
      (later : Splits tail (before ++ word) (gap ++ word) after lexemes) :
      Splits tail before gap text lexemes
  | token {before gap text word after : List Char} {kind : TokenKind} {lexemes : List Lexeme}
      (longest : Longest text (.token kind) word after)
      (later : Splits tail (before ++ word) [] after lexemes) :
      Splits tail before gap text
        ({ kind, text := String.ofList word, gap := String.ofList gap,
           start := (String.ofList before).utf8ByteSize, line := 1 + lineFeeds before } :: lexemes)

/-! ## Gaps -/

/-- What may stand between two lexemes. -/
def gapText : Language Char := (LexRule.blanks.pattern + LexRule.comment.pattern)∗

theorem append_mem_gapText {gap word : List Char} {rule : LexRule} (dropped : gap ∈ gapText)
    (skipped : rule.isSkipped = true) (matched : word ∈ rule.pattern) : gap ++ word ∈ gapText := by
  have piece : word ∈ LexRule.blanks.pattern + LexRule.comment.pattern := by
    cases rule with
    | blanks => exact .inl matched
    | comment => exact .inr matched
    | token => cases skipped
  rw [gapText, ← Language.one_add_kstar_mul_self_eq_kstar]
  exact .inr (Language.append_mem_mul dropped piece)

theorem splitGap_step (text : List Char) :
    splitGap false text = ([], text) ∨
    ∃ rule word after, rule.isSkipped = true ∧ Longest text rule word after ∧
      splitGap false text = (word ++ (splitGap false after).1, (splitGap false after).2) := by
  cases text with
  | nil => exact .inl rfl
  | cons c rest =>
      by_cases gap : isGapChar c = true
      · refine .inr ⟨.blanks, _, _, rfl, blanks_longest gap rest, ?_⟩
        have blank : ∀ c' ∈ (c :: rest).takeWhile isGapChar, isGapChar c' = true :=
          fun _ => List.mem_takeWhile_imp
        have cut := splitGap_blanks blank ((c :: rest).dropWhile isGapChar)
        rwa [List.takeWhile_append_dropWhile] at cut
      · by_cases opening : c = '/' ∧ rest.head? = some '/'
        · obtain ⟨rfl, second⟩ := opening
          obtain ⟨later, rfl⟩ : ∃ later, rest = '/' :: later := List.head?_eq_some_iff.mp second
          refine .inr ⟨.comment, _, _, rfl, comment_longest later, ?_⟩
          have ends : ∀ c ∈ (later.dropWhile (· != '\n')).head?, c = '\n' := by
            intro c first
            have stopped := List.head?_dropWhile_not (· != '\n') later
            rw [Option.mem_def.mp first] at stopped
            simpa using stopped
          have oneLine : ∀ c ∈ later.takeWhile (· != '\n'), (c != '\n') = true :=
            fun _ inLine => @List.mem_takeWhile_imp _ (· != '\n') _ _ inLine
          have cut := splitGap_comment oneLine ends
          simpa using cut
        · exact .inl (by simp [splitGap, gap, opening])

/-- What is dropped at the front of a text is cut into longest matches. -/
theorem Splits.gap {tail before gap text : List Char} {lexemes : List Lexeme}
    (later : Splits tail (before ++ (splitGap false text).1) (gap ++ (splitGap false text).1)
      (splitGap false text).2 lexemes) :
    Splits tail before gap text lexemes := by
  induction size : text.length using Nat.strong_induction_on generalizing before gap text with
  | _ size' ih =>
      rcases splitGap_step text with nothing | ⟨rule, word, after, skipped, longest, cut⟩
      · rw [nothing] at later
        simpa using later
      · refine .skip longest skipped (ih after.length ?_ ?_ rfl)
        · have lengths := congrArg List.length longest.whole
          have positive := List.length_pos_iff.mpr longest.filled
          rw [List.length_append] at lengths
          omega
        · rw [cut] at later
          simpa using later

/-! ## Whole texts -/

/-- What a text behind `before` says about the outcome of splitting it. -/
def Explains (before text : List Char) : Except Unreadable (List Lexeme) → Prop
  | .ok lexemes => Splits [] before [] text lexemes
  | .error fault => ∃ front tail lexemes, text = front ++ tail ∧
      Splits tail before [] text lexemes ∧ tail ≠ [] ∧ Stuck tail ∧
      fault.line = 1 + lineFeeds (before ++ front)

theorem utf8ByteSize_ofList_append (front back : List Char) :
    (String.ofList (front ++ back)).utf8ByteSize =
      (String.ofList front).utf8ByteSize + (String.ofList back).utf8ByteSize := by
  rw [String.ofList_append, String.utf8ByteSize_append]

section Steps

variable {before text word after : List Char} {kind : TokenKind} {start line : Nat}

theorem size_behind (atStart : (String.ofList before).utf8ByteSize = start) (gap : List Char) :
    (String.ofList (before ++ gap ++ word)).utf8ByteSize =
      (lexemeAt start line gap word kind).stop := by
  rw [utf8ByteSize_ofList_append, utf8ByteSize_ofList_append, atStart]
  rfl

theorem lines_behind (atLine : 1 + lineFeeds before = line)
    (found : firstToken (splitGap false text).2 = some (kind, word, after)) (gap : List Char) :
    1 + lineFeeds (before ++ gap ++ word) = line + lineFeeds gap := by
  have oneLine : lineFeeds word = 0 := List.count_eq_zero.mpr (firstToken_oneLine found)
  rw [lineFeeds_append, lineFeeds_append, oneLine, Nat.add_zero, ← Nat.add_assoc, atLine]

/-- A text is explained by its first lexeme and by what explains the rest. -/
theorem Explains.token (atStart : (String.ofList before).utf8ByteSize = start)
    (atLine : 1 + lineFeeds before = line)
    (found : firstToken (splitGap false text).2 = some (kind, word, after))
    {outcome : Except Unreadable (List Lexeme)}
    (later : Explains (before ++ (splitGap false text).1 ++ word) after outcome) :
    Explains before text (outcome >>= fun later =>
      .ok (lexemeAt start line (splitGap false text).1 word kind :: later)) := by
  have solid : Solid (splitGap false text).2 := solid_of_splitGap (Prod.ext rfl rfl)
  have longest := firstToken_longest solid found
  have place : ∀ gap, lexemeAt start line gap word kind =
      { kind, text := String.ofList word, gap := String.ofList ([] ++ gap),
        start := (String.ofList (before ++ gap)).utf8ByteSize,
        line := 1 + lineFeeds (before ++ gap) } := by
    intro gap
    rw [utf8ByteSize_ofList_append, lineFeeds_append, atStart, ← Nat.add_assoc, atLine]
    rfl
  rw [place]
  cases outcome with
  | ok lexemes => exact Splits.gap (.token longest later)
  | error fault =>
      obtain ⟨front, tail, lexemes, cut, splits, filled, stuck, atFault⟩ := later
      refine ⟨(splitGap false text).1 ++ word ++ front, tail, _, ?_, .gap (.token longest splits),
        filled, stuck, ?_⟩
      · have whole := splitGap_append false text
        rw [← longest.whole, cut] at whole
        simpa using whole.symm
      · simpa using atFault

end Steps

theorem tokenizeFrom_explained (before text : List Char) :
    Explains before text
      (tokenizeFrom (String.ofList before).utf8ByteSize (1 + lineFeeds before) text) := by
  -- both counters tell of the text that is behind, and this is kept from one lexeme to the next
  generalize atStart : (String.ofList before).utf8ByteSize = start
  generalize atLine : 1 + lineFeeds before = line
  fun_induction tokenizeFrom start line text generalizing before with
  | case1 start line text cut blank =>
      refine Splits.gap ?_
      rw [List.isEmpty_iff.mp blank]
      exact .done
  | case2 start line text cut line' filled missing =>
      have solid : Solid cut.2 := solid_of_splitGap (Prod.ext rfl rfl)
      refine ⟨cut.1, cut.2, [], (splitGap_append false text).symm, .gap .done, ?_,
        stuck_of_firstToken solid missing, ?_⟩
      · simpa using filled
      · rw [lineFeeds_append, ← Nat.add_assoc, atLine]
  | case3 start line text cut start' line' filled kind word after token lexeme later inner ih =>
      have rest := ih (before ++ cut.1 ++ word) (size_behind atStart cut.1)
        (lines_behind atLine token cut.1)
      rw [inner] at rest
      exact Explains.token atStart atLine token rest
  | case4 start line text cut start' line' filled kind word after token lexeme fault inner ih =>
      have rest := ih (before ++ cut.1 ++ word) (size_behind atStart cut.1)
        (lines_behind atLine token cut.1)
      rw [inner] at rest
      exact Explains.token atStart atLine token rest

/-! ## Places of lexemes -/

/-- The lexeme is cut out of the source where it says, as the longest match there. -/
structure StandsIn (source : String) (lexeme : Lexeme) : Prop where
  cut : ∃ front back : String, source = front ++ lexeme.text ++ back ∧
    lexeme.start = front.utf8ByteSize ∧ lexeme.line = 1 + lineFeeds front.toList ∧
    Longest (lexeme.text ++ back).toList (.token lexeme.kind) lexeme.text.toList back.toList
  filled : lexeme.start < lexeme.stop
  inside : lexeme.stop ≤ source.utf8ByteSize

def Lexeme.Before (lexeme next : Lexeme) : Prop :=
  lexeme.stop ≤ next.start ∧ lexeme.line ≤ next.line

variable {tail before gap text : List Char} {lexemes : List Lexeme}

theorem Splits.standsIn (splits : Splits tail before gap text lexemes) :
    ∀ lexeme ∈ lexemes, StandsIn (String.ofList (before ++ text)) lexeme := by
  induction splits with
  | done => simp
  | skip longest _ _ ih =>
      rw [List.append_assoc, longest.whole] at ih
      exact ih
  | @token before gap text word after kind lexemes longest _ ih =>
      rw [List.append_assoc, longest.whole] at ih
      refine List.forall_mem_cons.mpr ⟨?_, ih⟩
      have whole : String.ofList (before ++ text) =
          String.ofList before ++ String.ofList word ++ String.ofList after := by
        rw [← longest.whole, String.ofList_append, String.ofList_append, String.append_assoc]
      have size := congrArg String.utf8ByteSize whole
      rw [String.utf8ByteSize_append, String.utf8ByteSize_append] at size
      refine ⟨⟨String.ofList before, String.ofList after, whole, rfl, by simp, ?_⟩, ?_, ?_⟩
      · simpa [longest.whole] using longest
      · have positive : 0 < (String.ofList word).utf8ByteSize := by
          rw [Nat.pos_iff_ne_zero, ne_eq, String.utf8ByteSize_eq_zero_iff]
          simpa using longest.filled
        exact Nat.lt_add_of_pos_right positive
      · rw [size]
        exact Nat.le_add_right _ _

/-- All lexemes stand behind what is before the text. -/
theorem Splits.behind (splits : Splits tail before gap text lexemes) :
    ∀ lexeme ∈ lexemes, (String.ofList before).utf8ByteSize ≤ lexeme.start ∧
      1 + lineFeeds before ≤ lexeme.line := by
  induction splits with
  | done => simp
  | skip _ _ _ ih =>
      intro lexeme member
      obtain ⟨start, line⟩ := ih lexeme member
      rw [utf8ByteSize_ofList_append] at start
      rw [lineFeeds_append] at line
      omega
  | token _ _ ih =>
      refine List.forall_mem_cons.mpr ⟨⟨le_rfl, le_rfl⟩, fun lexeme member => ?_⟩
      obtain ⟨start, line⟩ := ih lexeme member
      rw [utf8ByteSize_ofList_append] at start
      rw [lineFeeds_append] at line
      omega

theorem Splits.inOrder (splits : Splits tail before gap text lexemes) :
    lexemes.Pairwise Lexeme.Before := by
  induction splits with
  | done => exact .nil
  | skip _ _ _ ih => exact ih
  | token _ later ih =>
      refine .cons (fun next member => ?_) ih
      obtain ⟨start, line⟩ := later.behind next member
      rw [utf8ByteSize_ofList_append] at start
      rw [lineFeeds_append] at line
      exact ⟨start, by simp only; omega⟩

theorem Splits.covered (splits : Splits tail before gap text lexemes) (dropped : gap ∈ gapText) :
    ∃ back ∈ gapText, gap ++ text = runText lexemes ++ back ++ tail ∧
      ∀ lexeme ∈ lexemes, lexeme.gap.toList ∈ gapText := by
  induction splits with
  | @done before gap => exact ⟨gap, dropped, rfl, by simp⟩
  | skip longest skipped _ ih =>
      rw [← longest.whole, ← List.append_assoc]
      exact ih (append_mem_gapText dropped skipped longest.matched)
  | @token before gap text word after kind lexemes longest _ ih =>
      obtain ⟨back, last, whole, gaps⟩ := ih (Language.nil_mem_kstar _)
      rw [List.nil_append] at whole
      refine ⟨back, last, ?_, List.forall_mem_cons.mpr ⟨by simpa using dropped, gaps⟩⟩
      rw [← longest.whole, whole]
      simp [runText]

/-! ## Sources -/

/-- The lexemes are the source, cut into longest matches, without blanks and comments. -/
structure SplitOf (source : String) (lexemes : List Lexeme) : Prop where
  splits : Splits [] [] [] source.toList lexemes
  standsIn : ∀ lexeme ∈ lexemes, StandsIn source lexeme
  inOrder : lexemes.Pairwise Lexeme.Before
  /-- Only blanks and comments stand before, between and behind the lexemes. -/
  covered : ∃ back ∈ gapText, source.toList = runText lexemes ++ back ∧
    ∀ lexeme ∈ lexemes, lexeme.gap.toList ∈ gapText

/-- Nothing matches in the source at `tail`, which stands on this line; all before it is cut. -/
structure StuckAt (source : String) (line : Nat) (front tail : List Char)
    (lexemes : List Lexeme) : Prop where
  whole : source.toList = front ++ tail
  splits : Splits tail [] [] source.toList lexemes
  filled : tail ≠ []
  stuck : Stuck tail
  place : line = 1 + lineFeeds front

theorem tokenize_splits (source : String) :
    match tokenize source with
    | .ok lexemes => SplitOf source lexemes
    | .error fault => ∃ front tail lexemes, StuckAt source fault.line front tail lexemes := by
  have explained : Explains [] source.toList (tokenize source) :=
    tokenizeFrom_explained [] source.toList
  cases outcome : tokenize source with
  | ok lexemes =>
      rw [outcome] at explained
      have splits : Splits [] [] [] source.toList lexemes := explained
      obtain ⟨back, last, whole, gaps⟩ := splits.covered (Language.nil_mem_kstar _)
      refine ⟨splits, ?_, splits.inOrder, back, last, by simpa using whole, gaps⟩
      simpa using splits.standsIn
  | error fault =>
      rw [outcome] at explained
      obtain ⟨front, tail, lexemes, whole, splits, filled, stuck, place⟩ := explained
      exact ⟨front, tail, lexemes, whole, splits, filled, stuck, place⟩

/-- A comment is longer than a slash, a signed number longer than a minus. -/
example : (tokenize "x/y//z\n-1e+2...-/").toOption.map
    (List.map fun lexeme => (lexeme.text, lexeme.start, lexeme.line)) =
      some [("x", 0, 1), ("/", 1, 1), ("y", 2, 1), ("-1e+2...", 7, 2), ("-", 15, 2),
        ("/", 16, 2)] := by decide +kernel

end ApiCompat
