import ApiCompat.Proofs.Token.Longest
import ApiCompat.Proofs.Token.Spelling

/-!
# Source texts among other texts

The text of a run of lexemes, from the start of the first to the end of the
last one, splits into the same lexemes with the same gaps wherever it stands,
if only a stop follows it (`ScansTo.source`).
-/

set_option autoImplicit false

namespace ApiCompat

/-- The words without a condition on what stands before the first. -/
def loosen : List Word → List Word
  | [] => []
  | word :: rest => { word with gap := none } :: rest

theorem loose_loosen (words : List Word) : Loose (loosen words) := by
  cases words with
  | nil => exact loose_nil
  | cons word rest => exact loose_cons rfl rest

/-! ## The text of a run of lexemes -/

def runText (lexemes : List Lexeme) : List Char :=
  lexemes.flatMap fun lexeme => lexeme.gap.toList ++ lexeme.text.toList

theorem sourceText_toList (first : Lexeme) (rest : List Lexeme) :
    (Lexeme.sourceText (first :: rest)).toList = first.text.toList ++ runText rest := by
  have grown : ∀ (lexemes : List Lexeme) (front : String),
      (lexemes.foldl (fun sofar next => sofar ++ next.gap ++ next.text) front).toList =
        front.toList ++ runText lexemes := by
    intro lexemes
    induction lexemes with
    | nil => simp [runText]
    | cons lexeme lexemes ih =>
        intro front
        rw [List.foldl_cons, ih]
        simp [runText]
  exact grown rest first.text

/-- Lexemes with the same words, but for the gap of the first, have the same source text. -/
theorem sourceText_of_spells {lexemes others : List Lexeme}
    (spells : Spells (loosen (lexemes.map Lexeme.word)) others) :
    Lexeme.sourceText others = Lexeme.sourceText lexemes := by
  cases lexemes with
  | nil =>
      cases spells
      rfl
  | cons first rest =>
      cases spells with
      | @cons _ other _ others same later =>
          rw [← String.toList_inj, sourceText_toList, sourceText_toList, same.2.1]
          have texts : runText others = runText rest := by
            clear same
            induction rest generalizing others with
            | nil =>
                cases later
                rfl
            | cons lexeme rest ih =>
                cases later with
                | cons same later =>
                    obtain ⟨_, text, gap⟩ := same
                    have inner := ih later
                    simp only [runText, List.flatMap_cons] at inner ⊢
                    rw [inner, text, gap lexeme.gap rfl]
                    rfl
          rw [texts]
          rfl

/-! ## Scanning source texts -/

theorem ScansTo.text_eq {tail text : List Char} {lexemes : List Lexeme}
    (scans : ScansTo tail text (lexemes.map Lexeme.word)) : text = runText lexemes ++ tail := by
  induction lexemes generalizing text with
  | nil =>
      cases scans
      rfl
  | cons lexeme rest ih =>
      cases scans with
      | @word _ gap behind after _ _ cut token spaced scans =>
          have whole := splitGap_append false text
          have front := (firstToken_append _ _ _ _ token).1
          have gapText : gap = lexeme.gap.toList := by
            rw [← spaced lexeme.gap rfl, String.toList_ofList]
          have later := ih scans
          rw [cut] at whole
          simp only [runText, List.flatMap_cons] at later ⊢
          rw [← whole, ← front, later, gapText]
          simp [Lexeme.word]

/-- A run of lexemes stays one when another text that may follow it does. -/
theorem ScansTo.follow {tail tail' text : List Char} {lexemes : List Lexeme}
    (scans : ScansTo tail text (lexemes.map Lexeme.word)) (follows : Follows tail tail') :
    ScansTo tail' (runText lexemes ++ tail') (lexemes.map Lexeme.word) := by
  induction lexemes generalizing text with
  | nil => exact .done
  | cons lexeme rest ih =>
      cases scans with
      | @word _ gap behind after _ _ cut token spaced scans =>
          have later := ih scans
          have gapText : gap = lexeme.gap.toList := by
            rw [← spaced lexeme.gap rfl, String.toList_ofList]
          have afterText := scans.text_eq
          have followsRun := follows.append_left (runText rest)
          rw [← afterText] at followsRun
          have tokenAgain := firstToken_follow token followsRun
          obtain ⟨front, filled⟩ := firstToken_append _ _ _ _ token
          cases shape : lexeme.text.toList with
          | nil => exact absurd shape filled
          | cons c chars =>
              have behindText : behind = c :: (chars ++ after) := by
                rw [← front]
                simp [Lexeme.word, shape]
              rw [behindText] at cut
              have followsChars := followsRun.append_left chars
              have cutAgain := splitGap_follow cut followsChars
              have textAgain : runText (lexeme :: rest) ++ tail' =
                  gap ++ c :: (chars ++ (runText rest ++ tail')) := by
                simp [runText, gapText, shape]
              rw [textAgain]
              refine .word cutAgain ?_ spaced later
              simpa [Lexeme.word, shape] using tokenAgain

theorem splitGap_nothing {inComment : Bool} {text gap rest : List Char} {c : Char}
    (cut : splitGap inComment text = (gap, c :: rest)) :
    splitGap false (c :: rest) = ([], c :: rest) := by
  obtain ⟨filled, noComment⟩ := splitGap_front cut
  simp [splitGap, filled, noComment]

theorem ScansTo.source {tail tail' text : List Char} {lexemes : List Lexeme}
    (scans : ScansTo tail text (lexemes.map Lexeme.word)) (stops : Stops tail') :
    ScansTo tail' ((Lexeme.sourceText lexemes).toList ++ tail')
      (loosen (lexemes.map Lexeme.word)) := by
  have again := scans.follow (stops.follows tail)
  cases lexemes with
  | nil => exact .done
  | cons first rest =>
      generalize runText (first :: rest) ++ tail' = written at again
      cases again with
      | @word _ gap behind after _ _ cut token spaced scans =>
          have front := (firstToken_append _ _ _ _ token).1
          have behindText : behind = (Lexeme.sourceText (first :: rest)).toList ++ tail' := by
            rw [← front, scans.text_eq, sourceText_toList]
            simp [Lexeme.word]
          rw [← behindText]
          have cutAgain : splitGap false behind = ([], behind) := by
            cases behind with
            | nil => simp [firstToken] at token
            | cons c behind => exact splitGap_nothing cut
          refine @ScansTo.word tail' _ _ _ _ { first.word with gap := none } _ cutAgain token ?_
            scans
          intro wanted member
          cases member

theorem Scans.split {text : List Char} {words later : List Word}
    (scans : Scans text (words ++ later)) :
    ∃ middle, ScansTo middle text words ∧ Scans middle later := by
  induction words generalizing text with
  | nil => exact ⟨text, .done, scans⟩
  | cons word words ih =>
      obtain ⟨tail, blank, scans⟩ := scans
      cases scans with
      | word cut token spaced scans =>
          obtain ⟨middle, first, second⟩ := ih ⟨tail, blank, scans⟩
          exact ⟨middle, .word cut token spaced first, second⟩

/-! ## Lexemes of some text -/

/-- The lexemes stand in this order in some text. -/
def Lexed (lexemes : List Lexeme) : Prop := ∃ text, Scans text (lexemes.map Lexeme.word)

theorem Lexed.suffix {lexemes rest : List Lexeme} (lexed : Lexed lexemes)
    (suffix : rest <:+ lexemes) : Lexed rest := by
  obtain ⟨front, rfl⟩ := suffix
  obtain ⟨text, scans⟩ := lexed
  rw [List.map_append] at scans
  obtain ⟨middle, _, later⟩ := scans.split
  exact ⟨middle, later⟩

/-- What the source text of lexemes splits into when other words follow it. -/
theorem Lexed.source {lexemes rest : List Lexeme} (lexed : Lexed (lexemes ++ rest))
    {tail : List Char} {later : List Word} (stops : Stops tail) (scans : Scans tail later) :
    Scans ((Lexeme.sourceText lexemes).toList ++ tail)
      (loosen (lexemes.map Lexeme.word) ++ later) := by
  obtain ⟨text, whole⟩ := lexed
  rw [List.map_append] at whole
  obtain ⟨middle, first, _⟩ := whole.split
  exact (first.source stops).append scans

theorem firstToken_identifier {text word after : List Char}
    (found : firstToken text = some (.identifier, word, after)) :
    ∃ c rest, word = c :: rest ∧ isIdentStart c = true ∧ rest.all isIdentPart = true := by
  have shape : (LexRule.token .identifier).Matches word := mem_pattern_iff.mp (firstToken_mem found)
  cases shape with
  | identifier start parts => exact ⟨_, _, rfl, start, List.all_eq_true.mpr parts⟩
  | literal opens =>
      unfold literal? at opens
      split at opens <;> cases opens
  | single known =>
      unfold punctuation? at known
      split at known <;> cases known

theorem Lexed.isIdentifier {lexeme : Lexeme} {rest : List Lexeme} (lexed : Lexed (lexeme :: rest))
    (kind : lexeme.kind = .identifier) : isIdentifier lexeme.text = true := by
  obtain ⟨text, tail, _, scans⟩ := lexed
  cases scans with
  | word cut token spaced scans =>
      have wordKind : lexeme.word.kind = .identifier := kind
      rw [wordKind] at token
      obtain ⟨c, more, shape, start, parts⟩ := firstToken_identifier token
      have text : lexeme.text.toList = c :: more := shape
      simp [ApiCompat.isIdentifier, text, start, parts]

theorem Lexed.isIdentifier_of_mem {lexemes : List Lexeme} (lexed : Lexed lexemes) :
    ∀ lexeme ∈ lexemes, lexeme.kind = .identifier → ApiCompat.isIdentifier lexeme.text = true := by
  intro lexeme member kind
  obtain ⟨front, rest, rfl⟩ := List.append_of_mem member
  exact (lexed.suffix (List.suffix_append front _)).isIdentifier kind

theorem lexed_of_tokenize {text : String} {lexemes : List Lexeme}
    (found : tokenize text = .ok lexemes) : Lexed lexemes :=
  ⟨text.toList, scans_of_tokenizeFrom 0 1 text.toList lexemes found⟩

end ApiCompat
