import ApiCompat.Proofs.Respaced.Basic
import ApiCompat.Proofs.Token.Split

/-!
# Texts quoted from a source

The source text of lexemes that stand in a row is cut out of the source, from
the start of the first to the end of the last one, and split on its own it
gives the same tokens (`quotes_of_tokenize`).  Only semicolons and parentheses
that are tokens of their own count as such: in a literal they are part of the
literal (`mark_of_mem`), and in a comment part of no lexeme at all.
-/

set_option autoImplicit false

open scoped Computability

namespace ApiCompat

/-- The quoted text reaches from the start of the first lexeme to the end of the last one, and is
split into the same tokens when it stands alone. -/
structure Quotes (source : String) (taken : List Lexeme) (quoted : String) : Prop where
  cut : ∃ front back first last, source = front ++ quoted ++ back ∧ taken.head? = some first ∧
    taken.getLast? = some last ∧ first.start = front.utf8ByteSize ∧
    last.stop = (front ++ quoted).utf8ByteSize
  filled : quoted ≠ ""
  alone : ∃ own, tokenize quoted = .ok own ∧ own.map Lexeme.token = taken.map Lexeme.token

/-! ## Places -/

theorem runText_append (front back : List Lexeme) :
    runText (front ++ back) = runText front ++ runText back := List.flatMap_append

theorem runText_cons (lexeme : Lexeme) (rest : List Lexeme) :
    runText (lexeme :: rest) = lexeme.gap.toList ++ (lexeme.text.toList ++ runText rest) := by
  simp [runText]

/-- A lexeme starts behind all the lexemes and gaps before it. -/
theorem start_of_tokenizeFrom {start line : Nat} {text : List Char} {lexemes : List Lexeme}
    (found : tokenizeFrom start line text = .ok lexemes) (before : List Lexeme) (lexeme : Lexeme)
    (behind : List Lexeme) (whole : lexemes = before ++ lexeme :: behind) :
    lexeme.start = start + (String.ofList (runText before ++ lexeme.gap.toList)).utf8ByteSize := by
  fun_induction tokenizeFrom start line text generalizing lexemes before with
  | case1 =>
      obtain rfl := Except.ok.inj found
      exact absurd whole.symm (List.append_ne_nil_of_right_ne_nil _ (List.cons_ne_nil _ _))
  | case2 => cases found
  | case3 start line text cut start' line' filled kind word after token next later inner =>
      rename_i ih
      obtain rfl := Except.ok.inj found
      cases before with
      | nil =>
          obtain ⟨rfl, rfl⟩ := List.cons.inj whole
          simp [next, start', runText]
      | cons first before =>
          obtain ⟨rfl, rest⟩ := List.cons.inj whole
          have stop : next.stop = start + (String.ofList cut.1).utf8ByteSize +
              (String.ofList word).utf8ByteSize := rfl
          have gap : next.gap.toList = cut.1 := String.toList_ofList
          have text : next.text.toList = word := String.toList_ofList
          rw [ih inner before rest, stop, runText_cons, gap, text]
          simp only [List.append_assoc, utf8ByteSize_ofList_append]
          omega
  | case4 => cases found

/-- The text is what its lexemes and gaps say, up to its last gap. -/
theorem runText_of_tokenize {source : String} {lexemes : List Lexeme}
    (found : tokenize source = .ok lexemes) : ∃ tail, source.toList = runText lexemes ++ tail := by
  obtain ⟨tail, _, scans⟩ := scans_of_tokenizeFrom 0 1 source.toList lexemes found
  exact ⟨tail, scans.text_eq⟩

/-! ## Quoted texts -/

theorem tokens_loosen (taken : List Lexeme) :
    (loosen (taken.map Lexeme.word)).map Word.token = taken.map Lexeme.token := by
  cases taken with
  | nil => rfl
  | cons first rest => simp [loosen, Lexeme.word, Lexeme.token, Word.token]

theorem Lexed.text_ne_empty {lexeme : Lexeme} {rest : List Lexeme}
    (lexed : Lexed (lexeme :: rest)) : lexeme.text.toList ≠ [] := by
  obtain ⟨text, tail, _, scans⟩ := lexed
  cases scans with
  | word cut token spaced scans => exact (firstToken_append _ _ _ _ token).2

/-- The source text of some lexemes of a source is quoted from it. -/
theorem quotes_of_tokenize {source : String} {before taken after : List Lexeme}
    (found : tokenize source = .ok (before ++ (taken ++ after))) (filled : taken ≠ []) :
    Quotes source taken (Lexeme.sourceText taken) := by
  have lexed := lexed_of_tokenize found
  have lexedTaken := lexed.suffix (List.suffix_append before _)
  obtain ⟨first, rest, rfl⟩ := List.exists_cons_of_ne_nil filled
  constructor
  · obtain ⟨tail, text⟩ := runText_of_tokenize found
    obtain ⟨init, last, shape⟩ := List.eq_nil_or_concat' (first :: rest) |>.resolve_left filled
    let front := runText before ++ first.gap.toList
    have quoted := sourceText_toList first rest
    have start := start_of_tokenizeFrom found before first (rest ++ after) rfl
    have lastStart := start_of_tokenizeFrom found (before ++ init) last after (by rw [shape]; simp)
    have whole : source = String.ofList front ++ Lexeme.sourceText (first :: rest) ++
        String.ofList (runText after ++ tail) := by
      rw [← String.toList_inj, text]
      simp only [String.toList_append, String.toList_ofList, quoted, runText_append, runText_cons,
        front, List.cons_append, List.append_assoc]
    have ending : front ++ (Lexeme.sourceText (first :: rest)).toList =
        runText (before ++ init) ++ last.gap.toList ++ last.text.toList := by
      have taken : runText before ++ runText (first :: rest) =
          runText (before ++ init) ++ runText [last] := by
        rw [shape, ← runText_append, ← runText_append, List.append_assoc]
      rw [runText_cons, runText_cons] at taken
      rw [quoted]
      simpa [front, runText] using taken
    refine ⟨String.ofList front, _, first, last, whole, rfl, ?_, ?_, ?_⟩
    · rw [shape, List.getLast?_concat]
    · rw [start, Nat.zero_add]
    · have size := congrArg (fun chars => (String.ofList chars).utf8ByteSize) ending
      simp only [utf8ByteSize_ofList_append, String.ofList_toList] at size lastStart
      rw [Lexeme.stop, lastStart, String.utf8ByteSize_append, size]
      simp
  · intro empty
    have text := sourceText_toList first rest
    rw [empty] at text
    have nothing : first.text.toList = [] := (List.append_eq_nil_iff.mp text.symm).1
    exact lexedTaken.text_ne_empty nothing
  · have atEnd : Scans [] [] := .blank rfl
    obtain ⟨own, alone, spells⟩ := (lexedTaken.source stops_nil atEnd).tokenizeFrom 0 1
    rw [List.append_nil] at alone spells
    exact ⟨own, alone, (tokens_of_spells spells).trans (tokens_loosen _)⟩

/-! ## Semicolons and parentheses -/

/-- The characters that end a value or are counted in the arguments of an annotation. -/
def textMarks : List Char := [';', '(', ')']

theorem textMarks_spec {mark : Char} (isMark : mark ∈ textMarks) :
    isIdentPart mark = false ∧ isNumberPart mark = false ∧ isSign mark = false := by
  simp only [textMarks, List.mem_cons, List.not_mem_nil, or_false] at isMark
  rcases isMark with rfl | rfl | rfl <;> decide

theorem isDigit_isNumberPart {c : Char} (digit : c.isDigit = true) : isNumberPart c = true := by
  simp [isNumberPart, Char.isAlphanum, digit]

theorem numberTail_chars :
    ∀ word ∈ numberTail, ∀ c ∈ word, isNumberPart c = true ∨ isSign c = true := by
  rw [numberTail_eq]
  apply kstar_induction
  · exact List.forall_mem_nil _
  · rintro piece
      (⟨c, part, rfl⟩ | ⟨_, ⟨c, exponent, rfl⟩, _, ⟨sign, isSign, rfl⟩, rfl⟩) rest _ later
    · exact List.forall_mem_cons.mpr ⟨.inl part, later⟩
    · have letter := isNumberPart_of_isExponent exponent
      exact List.forall_mem_cons.mpr ⟨.inl letter, List.forall_mem_cons.mpr ⟨.inr isSign, later⟩⟩

/-- A word with a mark in it is the mark alone, or a literal. -/
theorem LexRule.Matches.mark {kind : TokenKind} {word : List Char}
    (shape : (LexRule.token kind).Matches word) {mark : Char} (isMark : mark ∈ textMarks)
    (inside : mark ∈ word) :
    (word = [mark] ∧ punctuation? mark = some kind) ∨ kind = .stringLiteral ∨
      kind = .charLiteral := by
  obtain ⟨noIdent, noNumber, noSign⟩ := textMarks_spec isMark
  have notInNumber : ∀ {c : Char} {rest : List Char}, c.isDigit = true → rest ∈ numberTail →
      mark ∉ c :: rest := by
    intro c rest digit tail member
    rcases List.mem_cons.mp member with rfl | member
    · simp [isDigit_isNumberPart digit] at noNumber
    · rcases numberTail_chars rest tail mark member with part | sign
      · simp [part] at noNumber
      · simp [sign] at noSign
  cases shape with
  | identifier start parts =>
      have part : isIdentPart mark = true := by
        rcases List.mem_cons.mp inside with rfl | member
        · simp [isIdentPart, start]
        · exact parts mark member
      simp [part] at noIdent
  | number digit tail => exact absurd inside (notInNumber digit tail)
  | negative digit tail =>
      rcases List.mem_cons.mp inside with rfl | member
      · exact absurd noSign (by decide)
      · exact absurd member (notInNumber digit tail)
  | literal opens inner =>
      unfold literal? at opens
      split at opens <;> cases opens
      · exact .inr (.inl rfl)
      · exact .inr (.inr rfl)
  | ellipsis =>
      obtain rfl : mark = '.' := by simpa using inside
      exact absurd isMark (by decide)
  | single known =>
      obtain rfl := List.mem_singleton.mp inside
      exact .inl ⟨rfl, known⟩

/-- A lexeme with a semicolon or a parenthesis in it is nothing else, or it is a literal. -/
theorem mark_of_mem {source : String} {lexemes : List Lexeme}
    (found : tokenize source = .ok lexemes) :
    ∀ lexeme ∈ lexemes, ∀ mark ∈ textMarks, mark ∈ lexeme.text.toList →
      (lexeme.text = String.ofList [mark] ∧ punctuation? mark = some lexeme.kind) ∨
        lexeme.kind = .stringLiteral ∨ lexeme.kind = .charLiteral := by
  intro lexeme member mark isMark inside
  obtain ⟨before, rest, rfl⟩ := List.append_of_mem member
  obtain ⟨text, tail, _, scans⟩ := (lexed_of_tokenize found).suffix (List.suffix_append before _)
  cases scans with
  | word cut token spaced scans =>
      have shape : (LexRule.token lexeme.kind).Matches lexeme.text.toList :=
        mem_pattern_iff.mp (firstToken_mem token)
      refine (shape.mark isMark inside).imp_left fun alone => ⟨?_, alone.2⟩
      rw [← alone.1, String.ofList_toList]

end ApiCompat
