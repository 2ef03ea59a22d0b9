import ApiCompat.Proofs.Signature.Captured

/-!
# Readers see tokens only

Two texts of the same tokens have their lexemes on other lines and behind other
blanks and comments.  A reader is run on both.  It `Follows` along: as long as
the same number of lexemes is left (`Beside`), both runs fail for the same
reason, or both succeed with the same number of lexemes left.  The values that
they return are equal, or they are texts quoted from the same tokens.
-/

set_option autoImplicit false

namespace ApiCompat

def Lexeme.token (lexeme : Lexeme) : TokenKind × String := (lexeme.kind, lexeme.text)

def Word.token (word : Word) : TokenKind × String := (word.kind, word.text)

theorem tokens_of_spells {words : List Word} {lexemes : List Lexeme}
    (spells : Spells words lexemes) : lexemes.map Lexeme.token = words.map Word.token := by
  induction spells with
  | nil => rfl
  | cons same _ ih => rw [List.map_cons, List.map_cons, ih, Lexeme.token, Word.token, same.1, same.2.1]

/-- Some lexemes of a text that follow one another: `count` of them behind the first `start`. -/
structure Span where
  start : Nat
  count : Nat

namespace Span

def of (span : Span) (lexemes : List Lexeme) : List Lexeme :=
  (lexemes.drop span.start).take span.count

/-- What is written there. -/
def source (lexemes : List Lexeme) (span : Span) : String := Lexeme.sourceText (span.of lexemes)

/-- The blanks and comments between the lexemes. -/
def gaps (lexemes : List Lexeme) (span : Span) : List String :=
  (span.of lexemes).tail.map Lexeme.gap

end Span

namespace Signature

open Reader

/-- Both readings fail for the same reason, or both succeed with related values. -/
inductive Outcomes {α : Type} (related : α → α → Prop) :
    Except Fault α → Except Fault α → Prop where
  | failed {fault fault' : Fault} (same : fault.reason = fault'.reason) :
      Outcomes related (.error fault) (.error fault')
  | read {value value' : α} (holds : related value value') :
      Outcomes related (.ok value) (.ok value')

/-- The lexemes of two texts of the same tokens, each with what a reader is told besides. -/
structure Respacing where
  context : Context
  context' : Context
  lexemes : List Lexeme
  lexemes' : List Lexeme
  sameMode : context.nullMode = context'.nullMode
  sameTokens : lexemes.map Lexeme.token = lexemes'.map Lexeme.token

namespace Respacing

/-- What is left of the lexemes when the same number of them is read. -/
def Beside (run : Respacing) (rest rest' : List Lexeme) : Prop :=
  ∃ place, rest = run.lexemes.drop place ∧ rest' = run.lexemes'.drop place

/-- Each text is the source text of the same tokens. -/
def Quoted (run : Respacing) (text text' : String) : Prop :=
  ∃ span : Span, text = span.source run.lexemes ∧ text' = span.source run.lexemes'

/-- The reader and the other one, each on its own lexemes, have outcomes with related values. -/
def Follows (run : Respacing) {α : Type} (related : α → α → Prop) (reader reader' : Reader α) :
    Prop :=
  ∀ rest rest', run.Beside rest rest' →
    Outcomes (fun out out' => related out.1 out'.1 ∧ run.Beside out.2 out'.2)
      (reader run.context rest) (reader' run.context' rest')

variable {run : Respacing} {rest rest' later later' : List Lexeme} {next next' : Lexeme}

/-! ## Lexemes that are left -/

namespace Beside

theorem tokens (beside : run.Beside rest rest') :
    rest.map Lexeme.token = rest'.map Lexeme.token := by
  obtain ⟨place, rfl, rfl⟩ := beside
  rw [List.map_drop, List.map_drop, run.sameTokens]

theorem length_eq (beside : run.Beside rest rest') : rest.length = rest'.length := by
  have lengths := congrArg List.length beside.tokens
  simpa using lengths

theorem drop (beside : run.Beside rest rest') (count : Nat) :
    run.Beside (rest.drop count) (rest'.drop count) := by
  obtain ⟨place, rfl, rfl⟩ := beside
  exact ⟨place + count, by rw [List.drop_drop], by rw [List.drop_drop]⟩

theorem tail (beside : run.Beside (next :: later) (next' :: later')) : run.Beside later later' :=
  beside.drop 1

theorem head (beside : run.Beside (next :: later) (next' :: later')) :
    next.token = next'.token :=
  (List.cons.inj beside.tokens).1

/-- Either both texts are at their end, or the next lexemes are the same token. -/
theorem cases (beside : run.Beside rest rest') :
    (rest = [] ∧ rest' = []) ∨ ∃ next later next' later', rest = next :: later ∧
      rest' = next' :: later' ∧ next.token = next'.token ∧ run.Beside later later' := by
  have lengths := beside.length_eq
  match rest, rest' with
  | [], [] => exact .inl ⟨rfl, rfl⟩
  | next :: later, next' :: later' =>
      exact .inr ⟨next, later, next', later', rfl, rfl, beside.head, beside.tail⟩
  | [], _ :: _ | _ :: _, [] => simp at lengths

theorem nil (beside : run.Beside [] rest') : rest' = [] :=
  List.length_eq_zero_iff.mp beside.length_eq.symm

theorem quoted (beside : run.Beside rest rest') (count : Nat) :
    run.Quoted (Lexeme.sourceText (rest.take count)) (Lexeme.sourceText (rest'.take count)) := by
  obtain ⟨place, rfl, rfl⟩ := beside
  exact ⟨⟨place, count⟩, rfl, rfl⟩

theorem cons (beside : run.Beside (next :: later) rest') :
    ∃ next' later', rest' = next' :: later' ∧ next.token = next'.token ∧
      run.Beside later later' := by
  rcases beside.cases with ⟨empty, _⟩ | ⟨_, _, next', later', whole, rfl, same, behind⟩
  · cases empty
  · cases whole
    exact ⟨next', later', rfl, same, behind⟩

end Beside

theorem kind_eq (same : next.token = next'.token) : next.kind = next'.kind :=
  congrArg Prod.fst same

theorem text_eq (same : next.token = next'.token) : next.text = next'.text :=
  congrArg Prod.snd same

theorem isWord_eq (same : next.token = next'.token) (word : String) :
    next.isWord word = next'.isWord word := by
  rw [Lexeme.isWord, Lexeme.isWord, kind_eq same, text_eq same]

/-- Whatever is asked of the next token has one answer in both texts. -/
theorem any_head_eq {test : Lexeme → Bool}
    (respects : ∀ next next', next.token = next'.token → test next = test next')
    (beside : run.Beside rest rest') : rest.head?.any test = rest'.head?.any test := by
  rcases beside.cases with ⟨rfl, rfl⟩ | ⟨next, later, next', later', rfl, rfl, same, _⟩
  · rfl
  · exact respects next next' same

theorem isEmpty_eq (beside : run.Beside rest rest') : rest.isEmpty = rest'.isEmpty := by
  rcases beside.cases with ⟨rfl, rfl⟩ | ⟨next, later, next', later', rfl, rfl, _⟩ <;> rfl

/-! ## Composition -/

variable {α β : Type} {related : α → α → Prop} {reader reader' : Reader α}

theorem follows_pure {value value' : α} (holds : related value value') :
    run.Follows related (pure value) (pure value') :=
  fun _ _ beside => .read ⟨holds, beside⟩

theorem Follows.bind {related' : β → β → Prop} {behind behind' : α → Reader β}
    (first : run.Follows related reader reader')
    (second : ∀ value value', related value value' →
      run.Follows related' (behind value) (behind' value')) :
    run.Follows related' (reader >>= behind) (reader' >>= behind') := by
  intro rest rest' beside
  have outcomes := first rest rest' beside
  generalize found : reader run.context rest = outcome at outcomes
  generalize found' : reader' run.context' rest' = outcome' at outcomes
  cases outcomes with
  | failed same =>
      rw [bind_error found, bind_error found']
      exact .failed same
  | @read out out' holds =>
      obtain ⟨value, later⟩ := out
      obtain ⟨value', later'⟩ := out'
      rw [bind_ok found, bind_ok found']
      exact second value value' holds.1 later later' holds.2

/-- A reader with equal values in both texts, and then the next one. -/
theorem Follows.bind_same {related' : β → β → Prop} {behind behind' : α → Reader β}
    (first : run.Follows Eq reader reader')
    (second : ∀ value, run.Follows related' (behind value) (behind' value)) :
    run.Follows related' (reader >>= behind) (reader' >>= behind') := by
  refine first.bind ?_
  rintro value _ rfl
  exact second value

theorem Follows.mono {stronger : α → α → Prop} (follows : run.Follows stronger reader reader')
    (weaker : ∀ value value', stronger value value' → related value value') :
    run.Follows related reader reader' := by
  intro rest rest' beside
  have outcomes := follows rest rest' beside
  generalize reader run.context rest = outcome at outcomes ⊢
  generalize reader' run.context' rest' = outcome' at outcomes ⊢
  cases outcomes with
  | failed same => exact .failed same
  | read holds => exact .read ⟨weaker _ _ holds.1, holds.2⟩

/-- What a test on both values decides alike sends both runs the same way. -/
theorem Follows.ite {yes no yes' no' : Reader α} {test test' : Prop} [Decidable test]
    [Decidable test'] (same : test ↔ test') (ifYes : test → run.Follows related yes yes')
    (ifNo : ¬test → run.Follows related no no') :
    run.Follows related (if test then yes else no) (if test' then yes' else no') := by
  by_cases holds : test
  · rw [if_pos holds, if_pos (same.mp holds)]
    exact ifYes holds
  · rw [if_neg holds, if_neg (mt same.mpr holds)]
    exact ifNo holds

theorem Follows.branch {test : Reader Bool} {yes no yes' no' : Reader α}
    (tests : run.Follows Eq test test) (ifYes : run.Follows related yes yes')
    (ifNo : run.Follows related no no') :
    run.Follows related (do if ← test then yes else no) (do if ← test then yes' else no') :=
  tests.bind_same fun _ => .ite Iff.rfl (fun _ => ifYes) fun _ => ifNo

theorem follows_failAt (line line' : Nat) (reason : Reason) :
    run.Follows related (failAt line reason) (failAt line' reason) :=
  fun _ _ _ => .failed rfl

theorem follows_unexpected (expected : Expected) :
    run.Follows related (unexpected expected) (unexpected expected) := by
  intro rest rest' beside
  rcases beside.cases with ⟨rfl, rfl⟩ | ⟨next, later, next', later', rfl, rfl, same, _⟩
  · exact .failed rfl
  · refine .failed ?_
    simp only [kind_eq same, text_eq same]

/-- Nothing is known of the lines. -/
theorem follows_currentLine : run.Follows (fun _ _ => True) currentLine currentLine := by
  intro rest rest' beside
  rcases beside.cases with ⟨rfl, rfl⟩ | ⟨next, later, next', later', rfl, rfl, _⟩
  · exact .read ⟨trivial, beside⟩
  · exact .read ⟨trivial, beside⟩

theorem follows_remaining : run.Follows run.Beside remaining remaining :=
  fun _ _ beside => .read ⟨beside, beside⟩

theorem follows_continueWith (beside : run.Beside rest rest') :
    run.Follows Eq (continueWith rest) (continueWith rest') :=
  fun _ _ _ => .read ⟨rfl, beside⟩

theorem follows_context : run.Follows
    (fun context context' => context.nullMode = context'.nullMode) Reader.context Reader.context :=
  fun _ _ beside => .read ⟨run.sameMode, beside⟩

/-! ## Single tokens -/

abbrev SameToken (lexeme lexeme' : Lexeme) : Prop := lexeme.token = lexeme'.token

theorem follows_takeIf {test : Lexeme → Bool}
    (respects : ∀ next next', next.token = next'.token → test next = test next') :
    run.Follows (Option.Rel SameToken) (takeIf? test) (takeIf? test) := by
  intro rest rest' beside
  rcases beside.cases with ⟨rfl, rfl⟩ | ⟨next, later, next', later', rfl, rfl, same, behind⟩
  · exact .read ⟨.none, beside⟩
  · simp only [takeIf?, ← respects next next' same]
    split
    · exact .read ⟨.some same, behind⟩
    · exact .read ⟨.none, beside⟩

/-- A test for a kind sees only the token. -/
theorem kind_respects (kind : TokenKind) (next next' : Lexeme) (same : next.token = next'.token) :
    (next.kind == kind) = (next'.kind == kind) := by
  rw [kind_eq same]

/-- Whether a token was taken is the same in both texts. -/
theorem follows_isSome {test : Lexeme → Bool}
    (respects : ∀ next next', next.token = next'.token → test next = test next') :
    run.Follows Eq (do return (← takeIf? test).isSome) (do return (← takeIf? test).isSome) := by
  refine (follows_takeIf respects).bind fun found found' same => ?_
  cases same with
  | none => exact follows_pure rfl
  | some => exact follows_pure rfl

theorem follows_skip (kind : TokenKind) : run.Follows Eq (skip? kind) (skip? kind) :=
  follows_isSome (kind_respects kind)

theorem follows_skipWord (word : String) : run.Follows Eq (skipWord? word) (skipWord? word) :=
  follows_isSome fun _ _ same => isWord_eq same word

theorem follows_expectKind (kind : TokenKind) (expected : Expected) :
    run.Follows SameToken (expectKind kind expected) (expectKind kind expected) := by
  refine (follows_takeIf (kind_respects kind)).bind fun found found' same => ?_
  cases same with
  | none => exact follows_unexpected expected
  | some same => exact follows_pure same

theorem follows_expect (kind : TokenKind) : run.Follows SameToken (expect kind) (expect kind) :=
  follows_expectKind kind _

theorem follows_identifier (expected : Expected) :
    run.Follows SameToken (identifier expected) (identifier expected) :=
  follows_expectKind .identifier expected

theorem follows_isNext (kind : TokenKind) : run.Follows Eq (isNext kind) (isNext kind) :=
  follows_remaining.bind fun _ _ beside => follows_pure (any_head_eq (kind_respects kind) beside)

/-! ## Lists and names -/

theorem follows_separatedRest (separator : TokenKind) {item : Reader α}
    (items : run.Follows Eq item item) (rounds : Nat) :
    run.Follows Eq (separatedRest separator item rounds) (separatedRest separator item rounds) := by
  induction rounds with
  | zero => exact follows_pure rfl
  | succ rounds ih =>
      refine (follows_skip separator).branch ?_ (follows_pure rfl)
      refine items.bind_same fun first => ?_
      refine ih.bind_same fun later => ?_
      exact follows_pure rfl

theorem follows_separated (separator : TokenKind) {item : Reader α}
    (items : run.Follows Eq item item) :
    run.Follows Eq (separated separator item) (separated separator item) := by
  refine items.bind_same fun first => ?_
  refine follows_remaining.bind fun rest rest' beside => ?_
  rw [beside.length_eq]
  refine (follows_separatedRest separator items _).bind_same fun later => ?_
  exact follows_pure rfl

theorem splitDotted_beside (beside : run.Beside rest rest') :
    (splitDotted rest).1.map Lexeme.text = (splitDotted rest').1.map Lexeme.text ∧
      run.Beside (splitDotted rest).2 (splitDotted rest').2 := by
  fun_induction splitDotted rest generalizing rest' with
  | case1 dot word rest dotted =>
      rename_i ih
      obtain ⟨dot', _, rfl, sameDot, beside⟩ := beside.cons
      obtain ⟨word', rest', rfl, sameWord, beside⟩ := beside.cons
      obtain ⟨texts, behind⟩ := ih beside
      have dotted' : dot'.kind = .dot ∧ word'.kind = .identifier := by
        rwa [← kind_eq sameDot, ← kind_eq sameWord]
      rw [splitDotted, if_pos dotted']
      exact ⟨congrArg₂ List.cons (text_eq sameWord) texts, behind⟩
  | case2 dot word rest plain =>
      obtain ⟨dot', _, rfl, sameDot, behind⟩ := beside.cons
      obtain ⟨word', rest', rfl, sameWord, _⟩ := behind.cons
      have plain' : ¬(dot'.kind = .dot ∧ word'.kind = .identifier) := by
        rwa [← kind_eq sameDot, ← kind_eq sameWord]
      rw [splitDotted, if_neg plain']
      exact ⟨rfl, beside⟩
  | case3 rest few =>
      -- Fewer than two lexemes are left, in the other text as well.
      rcases beside.cases with ⟨rfl, rfl⟩ | ⟨next, later, next', later', rfl, rfl, _, behind⟩
      · exact ⟨rfl, beside⟩
      · rcases behind.cases with ⟨rfl, rfl⟩ | ⟨word, more, _, _, rfl, _⟩
        · exact ⟨rfl, beside⟩
        · exact (few next word more rfl).elim

theorem follows_qualifiedName (expected : Expected) :
    run.Follows Eq (qualifiedName expected) (qualifiedName expected) := by
  refine (follows_identifier expected).bind fun first first' same => ?_
  refine follows_remaining.bind fun rest rest' beside => ?_
  obtain ⟨words, behind⟩ := splitDotted_beside beside
  refine (follows_continueWith behind).bind_same fun _ => ?_
  refine follows_pure ?_
  rw [text_eq same, words]

end Respacing

end Signature

end ApiCompat
