import ApiCompat.Proofs.Respaced.Basic
import ApiCompat.Proofs.Token.Split

/-!
# Lexemes spaced apart

The lexemes of a source are written again with other blanks and comments
between them (`respace`).  As long as a blank follows each of them the new text
splits into the same tokens (`tokenize_respace`), whether they touched in the
source or not.
-/

set_option autoImplicit false

open scoped Computability

namespace ApiCompat

/-! ## Spacing -/

/-- Blanks, and comments that end with their line. -/
def trivia : Language Char := (oneOf isGapChar + LexRule.comment.pattern * exactly "\n")∗

/-- What keeps two lexemes apart: it begins with a blank. -/
def spacing : Language Char := oneOf isGapChar * trivia

theorem nil_mem_trivia : [] ∈ trivia := Language.nil_mem_kstar _

theorem trivia_blank {c : Char} {rest : List Char} (gap : isGapChar c = true)
    (later : rest ∈ trivia) : c :: rest ∈ trivia :=
  append_mem_kstar (.inl ⟨c, gap, rfl⟩) later

theorem trivia_comment {run rest : List Char} (oneLine : ∀ c ∈ run, c ≠ '\n')
    (later : rest ∈ trivia) : '/' :: '/' :: (run ++ '\n' :: rest) ∈ trivia := by
  have comment : '/' :: '/' :: run ∈ LexRule.comment.pattern :=
    mem_pattern_iff.mpr (.comment oneLine)
  have ended : ('/' :: '/' :: run) ++ ['\n'] ∈ LexRule.comment.pattern * exactly "\n" :=
    Language.append_mem_mul comment rfl
  have whole := append_mem_kstar (.inr ended) later
  rwa [List.append_assoc] at whole

theorem mem_spacing {text : List Char} :
    text ∈ spacing ↔ ∃ c rest, isGapChar c = true ∧ rest ∈ trivia ∧ text = c :: rest :=
  mem_oneOf_mul

theorem trivia_of_spacing {text : List Char} (spaced : text ∈ spacing) : text ∈ trivia := by
  obtain ⟨c, rest, gap, later, rfl⟩ := mem_spacing.mp spaced
  exact trivia_blank gap later

/-- All of it is cut off at the front of a text. -/
theorem splitGap_trivia : ∀ gap ∈ trivia, ∀ rest : List Char,
    splitGap false (gap ++ rest) = (gap ++ (splitGap false rest).1, (splitGap false rest).2) := by
  apply kstar_induction
  · intro rest
    rfl
  · intro piece known gap _ ih rest
    rw [List.append_assoc, List.append_assoc]
    rcases known with ⟨c, blank, rfl⟩ | commented
    · rw [splitGap_blanks (by simpa using blank), ih rest]
    · obtain ⟨comment, matched, _, rfl, rfl⟩ := Language.mem_mul.mp commented
      have shape : LexRule.comment.Matches comment := mem_pattern_iff.mp matched
      cases shape with
      | comment oneLine =>
          have lineEnd : splitGap false ('\n' :: (gap ++ rest)) =
              ('\n' :: (splitGap false (gap ++ rest)).1, (splitGap false (gap ++ rest)).2) := rfl
          have cut := splitGap_comment (by simpa using oneLine)
            (show ∀ c ∈ ('\n' :: (gap ++ rest)).head?, c = '\n' by simp)
          have shape : "\n".toList = ['\n'] := rfl
          rw [shape, List.append_assoc, List.singleton_append, cut, lineEnd, ih rest]
          simp

theorem isStop_of_gap {c : Char} (gap : isGapChar c = true) : isStop c = true := by
  simp only [isGapChar, Bool.or_eq_true, beq_iff_eq] at gap
  rcases gap with (((rfl | rfl) | rfl) | rfl) | rfl <;> decide

theorem stops_of_spacing {gap : List Char} (spaced : gap ∈ spacing) (rest : List Char) :
    Stops (gap ++ rest) := by
  obtain ⟨c, later, blank, _, rfl⟩ := mem_spacing.mp spaced
  exact stops_cons (isStop_of_gap blank) _

/-! ## Lexemes in other gaps -/

/-- The texts of the lexemes, each behind its new gap, and what follows the last one. -/
def respace : List String → List Lexeme → String → String
  | gap :: gaps, lexeme :: lexemes, back => gap ++ lexeme.text ++ respace gaps lexemes back
  | _, _, back => back

/-- One gap for each lexeme.  Between two lexemes and behind the last one stands
a blank; before the first one and behind the last one there may be nothing. -/
structure Spaces (gaps : List String) (lexemes : List Lexeme) (back : String) : Prop where
  oneEach : gaps.length = lexemes.length
  first : ∀ gap ∈ gaps.head?, gap.toList ∈ trivia
  between : ∀ gap ∈ gaps.tail, gap.toList ∈ spacing
  last : back = "" ∨ back.toList ∈ spacing

/-- The text splits into the same kinds and texts. -/
def Retokenizes (text : String) (lexemes : List Lexeme) : Prop :=
  ∃ again, tokenize text = .ok again ∧ again.map Lexeme.token = lexemes.map Lexeme.token

def Lexeme.looseWord (lexeme : Lexeme) : Word := { lexeme.word with gap := none }

namespace Spaces

variable {gaps : List String} {lexemes : List Lexeme} {lexeme : Lexeme} {gap back : String}

theorem later (spaces : Spaces (gap :: gaps) (lexeme :: lexemes) back) :
    Spaces gaps lexemes back where
  oneEach := Nat.succ.inj spaces.oneEach
  first next member := trivia_of_spacing (spaces.between next (List.mem_of_mem_head? member))
  between next member := spaces.between next (List.mem_of_mem_tail member)
  last := spaces.last

theorem stops_back (spaces : Spaces gaps lexemes back) : Stops back.toList := by
  rcases spaces.last with rfl | spaced
  · exact stops_nil
  · simpa using stops_of_spacing spaced []

/-- What follows a lexeme does not continue it. -/
theorem stops (spaces : Spaces (gap :: gaps) (lexeme :: lexemes) back) :
    Stops (respace gaps lexemes back).toList := by
  cases gaps with
  | nil => exact spaces.stops_back
  | cons next gaps =>
      cases lexemes with
      | nil => exact spaces.stops_back
      | cons lexeme' lexemes =>
          have spaced := spaces.between next List.mem_cons_self
          rw [respace, String.toList_append, String.toList_append, List.append_assoc]
          exact stops_of_spacing spaced _

end Spaces

theorem Lexed.respaced {lexemes : List Lexeme} (lexed : Lexed lexemes) {gaps : List String}
    {back : String} (spaces : Spaces gaps lexemes back) :
    Scans (respace gaps lexemes back).toList (lexemes.map Lexeme.looseWord) := by
  induction lexemes generalizing gaps with
  | nil =>
      obtain rfl := List.length_eq_zero_iff.mp spaces.oneEach
      have blank : back.toList ∈ trivia := by
        rcases spaces.last with rfl | spaced
        · exact nil_mem_trivia
        · exact trivia_of_spacing spaced
      have cut := splitGap_trivia _ blank []
      rw [List.append_nil] at cut
      exact .blank (congrArg Prod.snd cut)
  | cons lexeme lexemes ih =>
      cases gaps with
      | nil => cases spaces.oneEach
      | cons gap gaps =>
          have behind := ih (lexed.suffix (List.suffix_cons lexeme lexemes)) spaces.later
          have front : Scans (lexeme.text.toList ++ (respace gaps lexemes back).toList)
              ((lexeme :: lexemes).map Lexeme.looseWord) :=
            @Lexed.source [lexeme] lexemes lexed _ _ spaces.stops behind
          rw [respace, String.toList_append, String.toList_append, List.append_assoc]
          exact Scans.gap (splitGap_trivia _ (spaces.first gap rfl)) (loose_cons rfl _) front

/-! ## Single spaces -/

theorem respace_blanks (lexeme : Lexeme) (lexemes : List Lexeme) :
    respace ("" :: lexemes.map fun _ => " ") (lexeme :: lexemes) "" =
      joinWith " " ((lexeme :: lexemes).map Lexeme.text) := by
  have spread : ∀ rest : List Lexeme, (respace (rest.map fun _ => " ") rest "").toList =
      (rest.map Lexeme.text).flatMap fun text => " ".toList ++ text.toList := by
    intro rest
    induction rest with
    | nil => rfl
    | cons next rest ih =>
        rw [List.map_cons, List.map_cons, List.flatMap_cons, ← ih, respace, String.toList_append,
          String.toList_append]
  rw [← String.toList_inj, List.map_cons, joinWith, foldl_join_toList, ← spread]
  simp [respace]

theorem spaces_blanks (lexeme : Lexeme) (lexemes : List Lexeme) :
    Spaces ("" :: lexemes.map fun _ => " ") (lexeme :: lexemes) "" where
  oneEach := by simp
  first gap member := by
    obtain rfl := Option.some.inj member
    exact nil_mem_trivia
  between gap member := by
    obtain ⟨_, _, rfl⟩ := List.mem_map.mp member
    exact mem_spacing.mpr ⟨' ', [], rfl, nil_mem_trivia, rfl⟩
  last := .inl rfl

/-! ## Main result -/

/-- The tokens of a source do not depend on what keeps them apart; single spaces do. -/
theorem tokenize_respace {source : String} {lexemes : List Lexeme}
    (found : tokenize source = .ok lexemes) :
    (∀ gaps back, Spaces gaps lexemes back →
      Retokenizes (respace gaps lexemes back) lexemes) ∧
    Retokenizes (joinWith " " (lexemes.map Lexeme.text)) lexemes := by
  have respaced : ∀ gaps back, Spaces gaps lexemes back →
      Retokenizes (respace gaps lexemes back) lexemes := by
    intro gaps back spaces
    obtain ⟨again, found', spells⟩ :=
      ((lexed_of_tokenize found).respaced spaces).tokenizeFrom 0 1
    refine ⟨again, found', ?_⟩
    rw [tokens_of_spells spells, List.map_map]
    rfl
  refine ⟨respaced, ?_⟩
  cases lexemes with
  | nil => exact respaced [] "" ⟨rfl, by simp, by simp, .inl rfl⟩
  | cons lexeme lexemes =>
      rw [← respace_blanks]
      exact respaced _ _ (spaces_blanks lexeme lexemes)

/-- Lexemes that touch, among them a number that a sign would continue. -/
def touchingText : String := "a-1e/...'\\''"

theorem tokenize_respace_touchingText :
    ∃ lexemes, tokenize touchingText = .ok lexemes ∧
      lexemes.map Lexeme.text = ["a", "-1e", "/", "...", "'\\''"] ∧
      Spaces ["// first\n", " ", "\t//\n", "\n", "\r"] lexemes " " ∧
      Retokenizes (respace ["// first\n", " ", "\t//\n", "\n", "\r"] lexemes " ") lexemes ∧
      Retokenizes "a -1e / ... '\\''" lexemes := by
  have texts : (tokenize touchingText).toOption.map (List.map Lexeme.text) =
      some ["a", "-1e", "/", "...", "'\\''"] := by decide +kernel
  cases found : tokenize touchingText with
  | error fault => simp [found, Except.toOption] at texts
  | ok lexemes =>
      rw [found] at texts
      have known : lexemes.map Lexeme.text = ["a", "-1e", "/", "...", "'\\''"] :=
        Option.some.inj texts
      have blank : ∀ c, isGapChar c = true → [c] ∈ spacing := fun c gap =>
        mem_spacing.mpr ⟨c, [], gap, nil_mem_trivia, rfl⟩
      have spaces : Spaces ["// first\n", " ", "\t//\n", "\n", "\r"] lexemes " " := by
        refine ⟨by simpa using (congrArg List.length known).symm, ?_, ?_, .inr (blank ' ' rfl)⟩
        · intro gap member
          obtain rfl := Option.some.inj member
          exact @trivia_comment " first".toList [] (by simp) nil_mem_trivia
        · simp only [List.tail_cons, List.forall_mem_cons]
          have commented : "\t//\n".toList ∈ spacing :=
            mem_spacing.mpr ⟨'\t', _, rfl, @trivia_comment [] [] (by simp) nil_mem_trivia, rfl⟩
          exact ⟨blank ' ' rfl, commented, blank '\n' rfl, blank '\r' rfl, by simp⟩
      have respaced := tokenize_respace found
      rw [known] at respaced
      exact ⟨lexemes, rfl, known, spaces, respaced.1 _ _ spaces, respaced.2⟩

end ApiCompat
