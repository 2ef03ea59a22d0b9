import ApiCompat.Proofs.Grammar.Trees

/-!
# Two runs of a reader

A reader is run on some lexemes, and once more under another null mode, on the
same lexemes moved to other lines, with more lexemes behind them.  `Repeats`
says that both runs fail alike or both take the same words.  At its end the
first run sees nothing where the second may see more, so nothing is said of
the second run when the first one took everything or failed, unless no more
lexemes follow.
-/

set_option autoImplicit false

namespace ApiCompat

def Lexeme.bare (lexeme : Lexeme) : Word := ⟨lexeme.kind, lexeme.text, none⟩

theorem spells_bare (lexemes : List Lexeme) : Spells (lexemes.map Lexeme.bare) lexemes := by
  induction lexemes with
  | nil => exact .nil
  | cons lexeme lexemes ih =>
      refine .cons ⟨rfl, rfl, ?_⟩ ih
      intro gap member
      cases member

/-! ## Words told by their kind -/

def fixedWord? : TokenKind → Option Word
  | .leftBrace => some .leftBrace
  | .rightBrace => some .rightBrace
  | .leftParen => some .leftParen
  | .rightParen => some .rightParen
  | .less => some .less
  | .greater => some .greater
  | .leftBracket => some .leftBracket
  | .rightBracket => some .rightBracket
  | .comma => some .comma
  | .semicolon => some .semicolon
  | .ellipsis => some .ellipsis
  | .dot => some .dot
  | .question => some .question
  | .bang => some .bang
  | .atSign => some .atSign
  | .equals => some .equals
  | .ampersand => some .ampersand
  | _ => none

structure Lexeme.Standard (lexeme : Lexeme) : Prop where
  fixed : ∀ word ∈ fixedWord? lexeme.kind, lexeme.bare = word
  identifier : isIdentifier lexeme.text = true → lexeme.kind = .identifier

theorem punctuation?_fixed {c : Char} {kind : TokenKind} (known : punctuation? c = some kind) :
    ∀ fixed ∈ fixedWord? kind, fixed = .punctuation kind c := by
  intro fixed member
  unfold punctuation? at known
  split at known <;> cases known <;> cases member <;> rfl

theorem firstToken_fixed {text word after : List Char} {kind : TokenKind}
    (found : firstToken text = some (kind, word, after)) :
    ∀ fixed ∈ fixedWord? kind, fixed = ⟨kind, String.ofList word, none⟩ := by
  intro fixed member
  have shape : (LexRule.token kind).Matches word := mem_pattern_iff.mp (firstToken_mem found)
  cases shape with
  | identifier | number | negative => cases member
  | literal opens =>
      unfold literal? at opens
      split at opens <;> cases opens <;> cases member
  | ellipsis =>
      cases member
      rfl
  | single known => exact punctuation?_fixed known fixed member

theorem firstToken_start {c : Char} {rest word after : List Char} {kind : TokenKind}
    (start : isIdentStart c = true) (found : firstToken (c :: rest) = some (kind, word, after)) :
    kind = .identifier := by
  simp only [firstToken, if_pos start, Option.some.injEq, Prod.mk.injEq] at found
  exact found.1.symm

theorem Lexed.standard {lexeme : Lexeme} {rest : List Lexeme} (lexed : Lexed (lexeme :: rest)) :
    lexeme.Standard := by
  obtain ⟨text, tail, _, scans⟩ := lexed
  cases scans with
  | word cut token spaced scans =>
      constructor
      · intro word fixed
        have same := firstToken_fixed token word fixed
        rw [String.ofList_toList] at same
        exact same.symm
      · intro valid
        have front := (firstToken_append _ _ _ _ token).1
        unfold ApiCompat.isIdentifier at valid
        cases shape : lexeme.text.toList with
        | nil => simp [shape] at valid
        | cons c chars =>
            simp only [shape, Bool.and_eq_true] at valid
            have word : lexeme.word.text.toList = c :: chars := shape
            rw [← front, word, List.cons_append] at token
            exact firstToken_start valid.1 token

theorem standard_of_tokenize {text : String} {lexemes : List Lexeme}
    (found : tokenize text = .ok lexemes) : ∀ lexeme ∈ lexemes, lexeme.Standard := by
  intro lexeme member
  obtain ⟨front, rest, rfl⟩ := List.append_of_mem member
  exact ((lexed_of_tokenize found).suffix (List.suffix_append front _)).standard

namespace Signature

open Reader

/-! ## The second run -/

/-- A first run in `context` and a second one in `context'`. -/
structure Rerun where
  context : Context
  context' : Context
  /-- Where the second run meets a lexeme of the first one. -/
  move : Lexeme → Lexeme
  shift : Nat → Nat
  /-- What the second run has behind the lexemes of the first one. -/
  more : List Lexeme
  kind_move : ∀ lexeme, (move lexeme).kind = lexeme.kind
  text_move : ∀ lexeme, (move lexeme).text = lexeme.text
  gap_move : ∀ lexeme, (move lexeme).gap = lexeme.gap
  line_move : ∀ lexeme, (move lexeme).line = shift lexeme.line
  end_move : more = [] → context'.endLine = shift context.endLine

namespace Rerun

/-- The second run meets the lexemes where the first one does. -/
def inPlace (context context' : Context) (more : List Lexeme)
    (ends : more = [] → context'.endLine = context.endLine) : Rerun where
  context := context
  context' := context'
  move := id
  shift := id
  more := more
  kind_move _ := rfl
  text_move _ := rfl
  gap_move _ := rfl
  line_move _ := rfl
  end_move := ends

variable (run : Rerun)

abbrev mode : NullMode := run.context.nullMode

abbrev mode' : NullMode := run.context'.nullMode

def again (lexemes : List Lexeme) : List Lexeme := lexemes.map run.move ++ run.more

def faultAgain (fault : Fault) : Fault := { fault with line := run.shift fault.line }

/-- Lexemes of a text to which the second run may add: a dotted name would go on there. -/
structure Settled (lexemes : List Lexeme) : Prop where
  standard : ∀ lexeme ∈ lexemes, lexeme.Standard
  noDot : run.more ≠ [] → ∀ last ∈ lexemes.getLast?, last.kind ≠ .dot

end Rerun

variable {run : Rerun} {lexemes : List Lexeme} {α β : Type}

@[simp] theorem Rerun.again_nil (run : Rerun) : run.again [] = run.more := rfl

@[simp] theorem Rerun.again_cons (run : Rerun) (lexeme : Lexeme) (lexemes : List Lexeme) :
    run.again (lexeme :: lexemes) = run.move lexeme :: run.again lexemes := rfl

theorem Rerun.again_append (run : Rerun) (taken rest : List Lexeme) :
    run.again (taken ++ rest) = taken.map run.move ++ run.again rest := by
  simp [again]

theorem Rerun.length_again (run : Rerun) (lexemes : List Lexeme) :
    (run.again lexemes).length = lexemes.length + run.more.length := by
  simp [again]

theorem Rerun.isWord_move (run : Rerun) (lexeme : Lexeme) (word : String) :
    (run.move lexeme).isWord word = lexeme.isWord word := by
  simp [Lexeme.isWord, run.kind_move, run.text_move]

theorem Rerun.spells_move (run : Rerun) (lexemes : List Lexeme) :
    Spells (lexemes.map Lexeme.word) (lexemes.map run.move) := by
  induction lexemes with
  | nil => exact .nil
  | cons lexeme lexemes ih =>
      refine .cons ⟨run.kind_move lexeme, run.text_move lexeme, ?_⟩ ih
      intro gap same
      obtain rfl := Option.some.inj same
      exact run.gap_move lexeme

theorem Rerun.sourceText_move (run : Rerun) (lexemes : List Lexeme) :
    Lexeme.sourceText (lexemes.map run.move) = Lexeme.sourceText lexemes := by
  apply sourceText_of_spells
  cases lexemes with
  | nil => exact .nil
  | cons first rest =>
      have spells := run.spells_move (first :: rest)
      rw [List.map_cons, List.map_cons] at spells
      cases spells with
      | cons matched later =>
          refine .cons ⟨matched.1, matched.2.1, ?_⟩ later
          intro gap member
          cases member

/-- A second run that adds nothing needs no dot to be ruled out. -/
theorem Rerun.settled_of_alone (alone : run.more = [])
    (standard : ∀ lexeme ∈ lexemes, lexeme.Standard) : run.Settled lexemes :=
  ⟨standard, fun some => absurd alone some⟩

theorem Rerun.Settled.suffix (taken : List Lexeme) {rest : List Lexeme}
    (settled : run.Settled (taken ++ rest)) :
    run.Settled rest := by
  refine ⟨fun lexeme member => settled.standard lexeme (List.mem_append_right _ member), ?_⟩
  intro more last member
  refine settled.noDot more last ?_
  rw [List.getLast?_append, Option.mem_def.mp member]
  rfl

/-- Both runs fail with the same reason, or both take the same words; the values
that they return are as `post` says. -/
def Repeats (run : Rerun) (lexemes : List Lexeme) (reader reader' : Reader α)
    (post : List Word → α → α → Prop) : Prop :=
  run.Settled lexemes →
    (∃ fault, reader run.context lexemes = .error fault ∧
      (run.more = [] → reader' run.context' (run.again lexemes) = .error (run.faultAgain fault))) ∨
    ∃ value value' words taken rest, lexemes = taken ++ rest ∧ Spells words taken ∧
      post words value value' ∧ reader run.context lexemes = .ok (value, rest) ∧
      (run.more = [] ∨ rest ≠ [] →
        reader' run.context' (run.again lexemes) = .ok (value', run.again rest))

/-- The words are those of a tree, which has one meaning in either run. -/
def Told {τ : Type} (write : τ → List Word) (mean mean' : τ → α) :
    List Word → α → α → Prop := fun words value value' =>
  ∃ tree, words = write tree ∧ value = mean tree ∧ value' = mean' tree

/-- The words are those of a tree of which the reader has seen to more than its words. -/
def ToldBy {τ : Type} (sound : τ → Prop) (write : τ → List Word) (mean mean' : τ → α) :
    List Word → α → α → Prop := fun words value value' =>
  ∃ tree, sound tree ∧ words = write tree ∧ value = mean tree ∧ value' = mean' tree

/-! ## Composition -/

theorem repeats_pure {value value' : α} {post : List Word → α → α → Prop}
    (holds : post [] value value') : Repeats run lexemes (pure value) (pure value') post :=
  fun _ => .inr ⟨value, value', [], [], lexemes, rfl, .nil, holds, rfl, fun _ => rfl⟩

theorem Repeats.bind {reader reader' : Reader α} {next next' : α → Reader β}
    {middle : List Word → α → α → Prop} {post : List Word → β → β → Prop}
    (first : Repeats run lexemes reader reader' middle)
    (second : ∀ value value' words rest, middle words value value' →
      lexemes.length = words.length + rest.length →
      Repeats run rest (next value) (next' value') fun later => post (words ++ later)) :
    Repeats run lexemes (reader >>= next) (reader' >>= next') post := by
  intro settled
  rcases first settled with ⟨fault, failed, failed'⟩ |
    ⟨value, value', words, taken, rest, rfl, spells, holds, read, read'⟩
  · exact .inl ⟨fault, bind_error failed, fun none => bind_error (failed' none)⟩
  · have length : (taken ++ rest).length = words.length + rest.length := by
      rw [List.length_append, spells.length_eq]
    rcases second value value' words rest holds length (settled.suffix taken) with
      ⟨fault, failed, failed'⟩ |
      ⟨last, last', later, taken', rest', rfl, spells', holds', read₂, read₂'⟩
    · refine .inl ⟨fault, (bind_ok read).trans failed, fun none => ?_⟩
      exact (bind_ok (read' (.inl none))).trans (failed' none)
    · refine .inr ⟨last, last', words ++ later, taken ++ taken', rest',
        (List.append_assoc _ _ _).symm, spells.append spells', holds', (bind_ok read).trans read₂,
        fun guard => ?_⟩
      have guard' : run.more = [] ∨ taken' ++ rest' ≠ [] := by
        refine guard.imp_right fun filled => ?_
        exact fun empty => filled (List.append_eq_nil_iff.mp empty).2
      exact (bind_ok (read' guard')).trans (read₂' guard)

/-- A reader that takes nothing, and then the next one. -/
theorem Repeats.peek {reader reader' : Reader α} {next next' : α → Reader β}
    {middle : α → α → Prop} {post : List Word → β → β → Prop}
    (first : Repeats run lexemes reader reader' fun words value value' =>
      words = [] ∧ middle value value')
    (second : ∀ value value', middle value value' →
      Repeats run lexemes (next value) (next' value') post) :
    Repeats run lexemes (reader >>= next) (reader' >>= next') post := by
  intro settled
  rcases first settled with ⟨fault, failed, failed'⟩ |
    ⟨value, value', words, taken, rest, whole, spells, ⟨rfl, holds⟩, read, read'⟩
  · exact .inl ⟨fault, bind_error failed, fun none => bind_error (failed' none)⟩
  · cases spells
    obtain rfl : lexemes = rest := whole
    rcases second value value' holds settled with ⟨fault, failed, failed'⟩ |
      ⟨last, last', later, taken', rest', rfl, spells', holds', read₂, read₂'⟩
    · refine .inl ⟨fault, (bind_ok read).trans failed, fun none => ?_⟩
      exact (bind_ok (read' (.inl none))).trans (failed' none)
    · refine .inr ⟨last, last', later, taken', rest', rfl, spells', holds',
        (bind_ok read).trans read₂, fun guard => ?_⟩
      have guard' : run.more = [] ∨ taken' ++ rest' ≠ [] := by
        refine guard.imp_right fun filled => ?_
        exact fun empty => filled (List.append_eq_nil_iff.mp empty).2
      exact (bind_ok (read' guard')).trans (read₂' guard)

theorem Repeats.mono {reader reader' : Reader α} {post post' : List Word → α → α → Prop}
    (repeats : Repeats run lexemes reader reader' post)
    (weaker : ∀ words value value', post words value value' → post' words value value') :
    Repeats run lexemes reader reader' post' := by
  intro settled
  rcases repeats settled with failed |
    ⟨value, value', words, taken, rest, whole, spells, holds, read⟩
  · exact .inl failed
  · exact .inr ⟨value, value', words, taken, rest, whole, spells, weaker _ _ _ holds, read⟩

theorem repeats_failAt {line line' : Nat} (reason : Reason) {post : List Word → α → α → Prop}
    (same : line' = run.shift line) :
    Repeats run lexemes (failAt line reason) (failAt line' reason) post := by
  subst same
  exact fun _ => .inl ⟨_, rfl, fun _ => rfl⟩

theorem repeats_unexpected (expected : Expected) {post : List Word → α → α → Prop} :
    Repeats run lexemes (unexpected expected) (unexpected expected) post := by
  intro _
  cases lexemes with
  | nil =>
      refine .inl ⟨_, rfl, fun none => ?_⟩
      rw [run.again_nil, none]
      simp [unexpected, Rerun.faultAgain, run.end_move none]
  | cons next rest =>
      refine .inl ⟨_, rfl, fun _ => ?_⟩
      simp [unexpected, Rerun.faultAgain, run.line_move, run.kind_move, run.text_move]

/-- At the end of the lexemes of the first run. -/
theorem repeats_atEnd {reader reader' : Reader α} {value value' : α}
    {post : List Word → α → α → Prop} (holds : post [] value value')
    (read : reader run.context [] = .ok (value, []))
    (read' : reader' run.context' [] = .ok (value', [])) : Repeats run [] reader reader' post := by
  refine fun _ => .inr ⟨value, value', [], [], [], rfl, .nil, holds, read, ?_⟩
  rintro (none | filled)
  · rw [run.again_nil, none]
    exact read'
  · exact absurd rfl filled

theorem repeats_failsAtEnd {reader reader' : Reader α} {post : List Word → α → α → Prop}
    {expected : Expected}
    (failed : reader run.context [] = unexpected expected run.context [])
    (failed' : reader' run.context' [] = unexpected expected run.context' []) :
    Repeats run [] reader reader' post := by
  refine fun _ => .inl ⟨_, failed, fun none => ?_⟩
  rw [run.again_nil, none, failed']
  simp [unexpected, Rerun.faultAgain, run.end_move none]

/-- Rounds that are enough for the second run are enough for the first. -/
theorem Rerun.eq_nil_of_again (lexemes : List Lexeme) (enough : (run.again lexemes).length ≤ 0) :
    lexemes = [] := by
  rw [run.length_again] at enough
  exact List.length_eq_zero_iff.mp (by omega)

/-! ## Looking ahead -/

/-- Both runs see their own lexemes. -/
theorem Repeats.remaining {next next' : List Lexeme → Reader α}
    {post : List Word → α → α → Prop}
    (second : Repeats run lexemes (next lexemes) (next' (run.again lexemes)) post) :
    Repeats run lexemes (Reader.remaining >>= next) (Reader.remaining >>= next') post := by
  intro settled
  rw [bind_ok (remaining_apply run.context lexemes),
    bind_ok (remaining_apply run.context' (run.again lexemes))]
  exact second settled

/-- Each run knows its context. -/
theorem Repeats.context {next next' : Context → Reader α} {post : List Word → α → α → Prop}
    (second : Repeats run lexemes (next run.context) (next' run.context') post) :
    Repeats run lexemes (Reader.context >>= next) (Reader.context >>= next') post := second

theorem repeats_currentLine :
    Repeats run lexemes currentLine currentLine fun words line line' =>
      words = [] ∧ line' = run.shift line := by
  intro _
  cases lexemes with
  | nil =>
      refine .inr ⟨_, run.shift run.context.endLine, [], [], [], rfl, .nil, ⟨rfl, rfl⟩, rfl, ?_⟩
      rintro (none | filled)
      · rw [run.again_nil, none]
        simp [currentLine, run.end_move none]
      · exact absurd rfl filled
  | cons next rest =>
      refine .inr ⟨_, _, [], [], _, rfl, .nil, ⟨rfl, rfl⟩, rfl, fun _ => ?_⟩
      simp [currentLine, run.line_move]

theorem repeats_isNext (kind : TokenKind) :
    Repeats run lexemes (isNext kind) (isNext kind) fun words found found' =>
      words = [] ∧ found' = found ∧
        found = lexemes.head?.any fun next => next.kind == kind := by
  intro _
  refine .inr ⟨_, _, [], [], lexemes, rfl, .nil, ⟨rfl, rfl, rfl⟩, rfl, fun guard => ?_⟩
  cases lexemes with
  | nil =>
      rcases guard with none | filled
      · simp [none, isNext_apply]
      · exact absurd rfl filled
  | cons next rest => simp [isNext_apply, run.kind_move]

/-! ## Taking one lexeme -/

theorem repeats_takeIf {test : Lexeme → Bool}
    (same : ∀ lexeme, test (run.move lexeme) = test lexeme) :
    Repeats run lexemes (takeIf? test) (takeIf? test) fun words found found' =>
      (words = [] ∧ found = none ∧ found' = none) ∨
        ∃ lexeme, test lexeme = true ∧ lexeme.Standard ∧ words = [lexeme.bare] ∧
          found = some lexeme ∧ found' = some (run.move lexeme) := by
  intro settled
  cases lexemes with
  | nil =>
      refine .inr ⟨none, none, [], [], [], rfl, .nil, .inl ⟨rfl, rfl, rfl⟩, rfl, ?_⟩
      rintro (none | filled)
      · rw [run.again_nil, none]
        rfl
      · exact absurd rfl filled
  | cons next rest =>
      cases passes : test next with
      | true =>
          have standard := settled.standard next List.mem_cons_self
          refine .inr ⟨some next, some (run.move next), [next.bare], [next], rest, rfl,
            spells_bare [next], .inr ⟨next, passes, standard, rfl, rfl, rfl⟩, ?_, fun _ => ?_⟩
          · simp [takeIf?, passes]
          · simp [takeIf?, same, passes]
      | false =>
          refine .inr ⟨none, none, [], [], next :: rest, rfl, .nil, .inl ⟨rfl, rfl, rfl⟩, ?_,
            fun _ => ?_⟩
          · simp [takeIf?, passes]
          · simp [takeIf?, same, passes]

theorem repeats_skip {kind : TokenKind} {word : Word} (fixed : fixedWord? kind = some word) :
    Repeats run lexemes (skip? kind) (skip? kind) fun words found found' =>
      found' = found ∧ words = if found then [word] else [] := by
  refine (repeats_takeIf fun lexeme => by rw [run.kind_move]).bind
    fun value value' words rest taken _ => ?_
  rcases taken with ⟨rfl, rfl, rfl⟩ | ⟨lexeme, passes, standard, rfl, rfl, rfl⟩
  · exact repeats_pure ⟨rfl, rfl⟩
  · have sameKind : lexeme.kind = kind := by simpa using passes
    rw [← sameKind] at fixed
    exact repeats_pure ⟨rfl, by simp [standard.fixed word fixed]⟩

theorem repeats_skipWord (text : String) :
    Repeats run lexemes (skipWord? text) (skipWord? text) fun words found found' =>
      found' = found ∧ words = if found then [.ident text] else [] := by
  refine (repeats_takeIf fun lexeme => run.isWord_move lexeme text).bind
    fun value value' words rest taken _ => ?_
  rcases taken with ⟨rfl, rfl, rfl⟩ | ⟨lexeme, passes, _, rfl, rfl, rfl⟩
  · exact repeats_pure ⟨rfl, rfl⟩
  · have isWord : lexeme.kind = .identifier ∧ lexeme.text = text := by
      simpa [Lexeme.isWord] using passes
    exact repeats_pure ⟨rfl, by simp [Lexeme.bare, Word.ident, isWord]⟩

theorem repeats_expectKind (kind : TokenKind) (expected : Expected) :
    Repeats run lexemes (expectKind kind expected) (expectKind kind expected)
      fun words lexeme lexeme' => words = [lexeme.bare] ∧ lexeme' = run.move lexeme ∧
        lexeme.kind = kind ∧ lexeme.Standard := by
  refine (repeats_takeIf fun lexeme => by rw [run.kind_move]).bind
    fun value value' words rest taken _ => ?_
  rcases taken with ⟨rfl, rfl, rfl⟩ | ⟨lexeme, passes, standard, rfl, rfl, rfl⟩
  · exact repeats_unexpected expected
  · exact repeats_pure ⟨rfl, rfl, by simpa using passes, standard⟩

theorem repeats_expect {kind : TokenKind} {word : Word} (fixed : fixedWord? kind = some word) :
    Repeats run lexemes (expect kind) (expect kind) fun words _ _ => words = [word] := by
  refine (repeats_expectKind kind (.token kind)).mono fun words lexeme _ holds => ?_
  obtain ⟨rfl, _, rfl, standard⟩ := holds
  rw [standard.fixed word fixed]

theorem repeats_identifier (expected : Expected) :
    Repeats run lexemes (identifier expected) (identifier expected)
      fun words lexeme lexeme' => words = [.ident lexeme.text] ∧ lexeme' = run.move lexeme := by
  refine (repeats_expectKind .identifier expected).mono fun words lexeme _ holds => ?_
  obtain ⟨rfl, rfl, kind, _⟩ := holds
  exact ⟨by simp [Lexeme.bare, Word.ident, kind], rfl⟩

end Signature

end ApiCompat
