import ApiCompat.Proofs.Name.Parts
import ApiCompat.Proofs.Token.Scan

/-!
# Texts put together from words

`Spelling admits text words` says that a written text splits into the words in
front of every text which it admits behind it.  Texts that end in a blank or
in punctuation admit anything (`Separated`); those that end in an identifier
admit what does not continue it (`Spelled`).
-/

set_option autoImplicit false

namespace ApiCompat

/-- A text that does not continue an identifier. -/
def Breaks (text : List Char) : Prop := ∀ c ∈ text.head?, isIdentPart c = false

/-- The first of the words may have any gap. -/
def Loose (words : List Word) : Prop := ∀ word ∈ words.head?, word.gap = none

/-- The text splits into the words, whatever admitted text follows. -/
structure Spelling (admits : List Char → Prop) (text : String) (words : List Word) : Prop where
  loose : Loose words
  scans : ∀ after later, admits after → Loose later → Scans after later →
    Scans (text.toList ++ after) (words ++ later)

abbrev Separated (text : String) (words : List Word) : Prop := Spelling (fun _ => True) text words

abbrev Spelled (text : String) (words : List Word) : Prop := Spelling Breaks text words

variable {admits admits' : List Char → Prop} {text text' : String} {words words' : List Word}

theorem loose_nil : Loose [] := by
  intro word member
  cases member

theorem loose_cons {word : Word} (loose : word.gap = none) (later : List Word) :
    Loose (word :: later) := by
  intro word' member
  obtain rfl := Option.some.inj member
  exact loose

theorem Loose.append {words later : List Word} (first : Loose words) (second : Loose later) :
    Loose (words ++ later) := by
  cases words with
  | nil => exact second
  | cons word words => exact loose_cons (first word rfl) _

theorem breaks_nil : Breaks [] := by
  intro c member
  cases member

theorem breaks_cons {c : Char} (ends : isIdentPart c = false) (rest : List Char) :
    Breaks (c :: rest) := by
  intro c' member
  obtain rfl := Option.some.inj member
  exact ends

theorem Breaks.append {front rest : List Char} (first : Breaks front) (second : Breaks rest) :
    Breaks (front ++ rest) := by
  cases front with
  | nil => exact second
  | cons c front => exact breaks_cons (first c rfl) _

/-! ## Putting texts together -/

theorem Spelling.weaken (spelling : Spelling admits text words)
    (narrower : ∀ after, admits' after → admits after) : Spelling admits' text words :=
  ⟨spelling.loose, fun after later admitted => spelling.scans after later (narrower after admitted)⟩

theorem Spelling.of_eq (spelling : Spelling admits text words) (sameText : text' = text)
    (sameWords : words' = words) : Spelling admits text' words' := by
  rw [sameText, sameWords]
  exact spelling

theorem Spelling.spelled (separated : Separated text words) : Spelled text words :=
  separated.weaken fun _ _ => trivial

theorem spelling_nil : Spelling admits "" [] := by
  refine ⟨loose_nil, ?_⟩
  intro after later _ _ scans
  exact scans

theorem Spelling.append_of (first : Spelling admits text words)
    (second : Spelling admits' text' words')
    (joins : ∀ after, admits' after → admits (text'.toList ++ after)) :
    Spelling admits' (text ++ text') (words ++ words') := by
  refine ⟨first.loose.append second.loose, ?_⟩
  intro after later admitted loose scans
  have behind := second.scans after later admitted loose scans
  have whole := first.scans _ _ (joins after admitted) (second.loose.append loose) behind
  rw [String.toList_append, List.append_assoc, List.append_assoc]
  exact whole

theorem Spelling.append (first : Separated text words) (second : Spelling admits text' words') :
    Spelling admits (text ++ text') (words ++ words') :=
  first.append_of second fun _ _ => trivial

theorem Spelling.join (first : Spelled text words) (second : Spelled text' words')
    (breaks : Breaks text'.toList) : Spelled (text ++ text') (words ++ words') :=
  first.append_of second fun _ admitted => breaks.append admitted

/-- A text that begins with a break may follow an identifier. -/
theorem Spelling.close (first : Spelled text words) (second : Spelling admits text' words')
    (breaks : Breaks text'.toList) (filled : text'.toList ≠ []) :
    Spelling admits (text ++ text') (words ++ words') := by
  refine first.append_of second fun after _ => ?_
  cases same : text'.toList with
  | nil => exact absurd same filled
  | cons c rest =>
      rw [same] at breaks
      exact breaks_cons (breaks c rfl) _

/-! ## Gaps -/

theorem Scans.gap {gap text : List Char} {words : List Word}
    (isGap : ∀ rest, splitGap false (gap ++ rest) =
      (gap ++ (splitGap false rest).1, (splitGap false rest).2))
    (loose : Loose words) (scans : Scans text words) : Scans (gap ++ text) words := by
  obtain ⟨tail, blank, scans⟩ := scans
  cases scans with
  | done => exact .blank (by rw [isGap]; exact blank)
  | word cut token spaced scans =>
      refine Scans.word (by rw [isGap, cut]) token ?_ ⟨tail, blank, scans⟩
      rw [loose _ rfl]
      intro wanted member
      cases member

theorem separated_gap {gap : String}
    (isGap : ∀ rest, splitGap false (gap.toList ++ rest) =
      (gap.toList ++ (splitGap false rest).1, (splitGap false rest).2)) :
    Separated gap [] := by
  refine ⟨loose_nil, ?_⟩
  intro after later _ loose scans
  exact Scans.gap isGap loose scans

theorem separated_blank : Separated " " [] := separated_gap fun _ => rfl

theorem separated_lineFeed : Separated "\n" [] := separated_gap fun _ => rfl

/-! ## Single words -/

/-- An identifier as a word. -/
def Word.ident (text : String) : Word := ⟨.identifier, text, none⟩

def Word.punctuation (kind : TokenKind) (c : Char) : Word := ⟨kind, String.ofList [c], none⟩

namespace Word

def dot : Word := .punctuation .dot '.'

def comma : Word := .punctuation .comma ','

def semicolon : Word := .punctuation .semicolon ';'

def question : Word := .punctuation .question '?'

def bang : Word := .punctuation .bang '!'

def atSign : Word := .punctuation .atSign '@'

def equals : Word := .punctuation .equals '='

def ampersand : Word := .punctuation .ampersand '&'

def less : Word := .punctuation .less '<'

def greater : Word := .punctuation .greater '>'

def leftParen : Word := .punctuation .leftParen '('

def rightParen : Word := .punctuation .rightParen ')'

def leftBracket : Word := .punctuation .leftBracket '['

def rightBracket : Word := .punctuation .rightBracket ']'

def leftBrace : Word := .punctuation .leftBrace '\x7b'

def rightBrace : Word := .punctuation .rightBrace '\x7d'

def ellipsis : Word := ⟨.ellipsis, "...", none⟩

end Word

def isIdentifier (text : String) : Bool :=
  match text.toList with
  | [] => false
  | c :: rest => isIdentStart c && rest.all isIdentPart

theorem firstToken_word (word : Word) {after : List Char}
    (token : firstToken (word.text.toList ++ after) = some (word.kind, word.text.toList, after))
    (solid : splitGap false (word.text.toList ++ after) = ([], word.text.toList ++ after))
    (loose : word.gap = none) {later : List Word} (scans : Scans after later) :
    Scans (word.text.toList ++ after) (word :: later) := by
  refine Scans.word solid token ?_ scans
  rw [loose]
  intro wanted member
  cases member

theorem isIdentStart_not_gap {c : Char} (start : isIdentStart c = true) :
    isGapChar c = false ∧ c ≠ '/' := by
  have notGap : ∀ c', isIdentStart c' = false → c ≠ c' := by
    rintro c' other rfl
    rw [start] at other
    cases other
  refine ⟨?_, notGap '/' (by decide)⟩
  simp only [isGapChar, Bool.or_eq_false_iff, beq_eq_false_iff_ne]
  exact ⟨⟨⟨⟨notGap ' ' (by decide), notGap '\t' (by decide)⟩, notGap '\r' (by decide)⟩,
    notGap '\n' (by decide)⟩, notGap '\x0c' (by decide)⟩

theorem splitGap_solid {c : Char} (notGap : isGapChar c = false) (notSlash : c ≠ '/')
    (rest : List Char) : splitGap false (c :: rest) = ([], c :: rest) := by
  simp [splitGap, notGap, notSlash]

theorem spelled_ident {text : String} (valid : isIdentifier text = true) :
    Spelled text [.ident text] := by
  refine ⟨loose_cons rfl _, ?_⟩
  intro after later breaks _ scans
  unfold isIdentifier at valid
  cases shape : text.toList with
  | nil => simp [shape] at valid
  | cons c rest =>
      simp only [shape, Bool.and_eq_true, List.all_eq_true] at valid
      obtain ⟨start, parts⟩ := valid
      obtain ⟨notGap, notSlash⟩ := isIdentStart_not_gap start
      have ends : after.takeWhile isIdentPart = [] ∧ after.dropWhile isIdentPart = after := by
        cases after with
        | nil => simp
        | cons c' after => simp [breaks c' rfl]
      rw [← shape]
      refine firstToken_word (.ident text) ?_ ?_ rfl scans
      · simp only [Word.ident, shape, List.cons_append, firstToken, start, if_true,
          List.takeWhile_append_of_pos parts, List.dropWhile_append_of_pos parts, ends,
          List.append_nil]
      · simp only [Word.ident, shape, List.cons_append]
        exact splitGap_solid notGap notSlash _

theorem separated_punctuation {kind : TokenKind} {c : Char} (known : punctuation? c = some kind)
    (plain : isGapChar c = false ∧ isIdentStart c = false ∧ c.isDigit = false ∧
      literal? c = none ∧ c ≠ '-' ∧ c ≠ '.' ∧ c ≠ '/') :
    Separated (String.ofList [c]) [.punctuation kind c] := by
  refine ⟨loose_cons rfl _, ?_⟩
  intro after later _ _ scans
  obtain ⟨notGap, notStart, notDigit, notLiteral, notMinus, notDot, notSlash⟩ := plain
  refine firstToken_word (.punctuation kind c) ?_ ?_ rfl scans
  · simp [Word.punctuation, firstToken, notStart, notDigit, notMinus, notLiteral, notDot, known]
  · simp only [Word.punctuation, String.toList_ofList, List.cons_append]
    exact splitGap_solid notGap notSlash _

/-! ## Lists and dotted names -/

/-- The words of several items with those of a separator between neighbours. -/
def joinWords (separator : List Word) : List (List Word) → List Word
  | [] => []
  | words :: rest => words ++ rest.flatMap fun next => separator ++ next

theorem spelled_join {α : Type} {separator : String} {between : List Word} {items : List α}
    (text : α → String) (words : α → List Word) (filled : items ≠ [])
    (breaks : Breaks separator.toList)
    (first : ∀ item ∈ items, Spelled (text item) (words item))
    (later : ∀ item ∈ items, Spelled (separator ++ text item) (between ++ words item))
    (visible : separator.toList ≠ []) :
    Spelled (joinWith separator (items.map text)) (joinWords between (items.map words)) := by
  have grown : ∀ (rest : List α) (front : String) (frontWords : List Word),
      Spelled front frontWords →
      (∀ item ∈ rest, Spelled (separator ++ text item) (between ++ words item)) →
      Spelled ((rest.map text).foldl (fun sofar next => sofar ++ separator ++ next) front)
        (frontWords ++ (rest.map words).flatMap fun next => between ++ next) := by
    intro rest
    induction rest with
    | nil =>
        intro front frontWords spelled _
        simpa using spelled
    | cons item rest ih =>
        intro front frontWords spelled items
        have starts : Breaks (separator ++ text item).toList := by
          rw [String.toList_append]
          cases same : separator.toList with
          | nil => exact absurd same visible
          | cons c tail =>
              rw [same] at breaks
              exact breaks_cons (breaks c rfl) _
        have longer := spelled.join (items item List.mem_cons_self) starts
        rw [← String.append_assoc] at longer
        have whole := ih _ _ longer fun next member => items next (List.mem_cons_of_mem _ member)
        simpa [List.append_assoc] using whole
  cases items with
  | nil => exact absurd rfl filled
  | cons item rest =>
      exact grown rest _ _ (first item List.mem_cons_self)
        fun next member => later next (List.mem_cons_of_mem _ member)

def nameWords (name : String) : List Word :=
  joinWords [.dot] ((nameParts name).map fun part => [.ident part])

theorem isIdentifier_noDot {text : String} (valid : isIdentifier text = true) :
    '.' ∉ text.toList := by
  unfold isIdentifier at valid
  cases shape : text.toList with
  | nil => exact List.not_mem_nil
  | cons c rest =>
      simp only [shape, Bool.and_eq_true, List.all_eq_true] at valid
      obtain ⟨start, parts⟩ := valid
      intro member
      rcases List.mem_cons.mp member with rfl | member
      · exact absurd start (by decide)
      · exact absurd (parts '.' member) (by decide)

/-- An identifier is a name of one part. -/
theorem nameParts_ident {name : String} (valid : isIdentifier name = true) :
    nameParts name = [name] := by
  have whole : nameParts (joinWith "." [name]) = [name] := by
    apply nameParts_joinWith (List.cons_ne_nil name [])
    intro part member
    rw [List.mem_singleton.mp member]
    exact isIdentifier_noDot valid
  exact whole

theorem nameWords_ident {name : String} (valid : isIdentifier name = true) :
    nameWords name = [.ident name] := by
  rw [nameWords, nameParts_ident valid]
  rfl

/-- A dot before an identifier begins no ellipsis. -/
theorem spelled_dot_ident {text : String} (valid : isIdentifier text = true) :
    Spelled ("." ++ text) [.dot, .ident text] := by
  refine ⟨loose_cons rfl _, ?_⟩
  intro after later breaks loose scans
  have behind := (spelled_ident valid).scans after later breaks loose scans
  have noDots : (text.toList ++ after).take 2 ≠ ['.', '.'] := by
    intro dots
    unfold isIdentifier at valid
    cases shape : text.toList with
    | nil => simp [shape] at valid
    | cons c rest =>
        simp only [shape, Bool.and_eq_true] at valid
        rw [shape, List.cons_append] at dots
        obtain ⟨rfl, _⟩ := List.cons.inj dots
        exact absurd valid.1 (by decide)
  rw [String.toList_append, List.append_assoc]
  refine firstToken_word .dot ?_ ?_ rfl behind
  · have token : firstToken ('.' :: (text.toList ++ after)) =
        some (.dot, ['.'], text.toList ++ after) := by
      have notStart : isIdentStart '.' = false := by decide
      have notDigit : '.'.isDigit = false := by decide
      have notLiteral : literal? '.' = none := rfl
      have known : punctuation? '.' = some .dot := rfl
      simp [firstToken, notStart, notDigit, notLiteral, noDots, known]
    exact token
  · exact splitGap_solid (by decide) (by decide) _

theorem spelled_name {name : String}
    (valid : ∀ part ∈ nameParts name, isIdentifier part = true) :
    Spelled name (nameWords name) := by
  have spelled : Spelled (joinWith "." ((nameParts name).map id)) (nameWords name) :=
    spelled_join id (fun part => [.ident part]) (nameParts_ne_nil name) (breaks_cons (by decide) [])
      (fun part member => spelled_ident (valid part member))
      (fun part member => spelled_dot_ident (valid part member)) (by decide)
  rw [List.map_id, joinWith_nameParts] at spelled
  exact spelled

theorem separated_ellipsis : Separated "..." [.ellipsis] := by
  refine ⟨loose_cons rfl _, ?_⟩
  intro after later _ _ scans
  exact firstToken_word .ellipsis rfl rfl rfl scans

end ApiCompat
