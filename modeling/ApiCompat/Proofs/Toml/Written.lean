import ApiCompat.Proofs.Json.Scalars
import ApiCompat.Toml.Read

/-!
# Reading TOML that was written

Decimal numbers, plain strings and arrays of numbers are read back from how
they are written, whatever follows them, and so are the lines of a document:
headers of tables, and bare keys with such values.
-/

set_option autoImplicit false

namespace ApiCompat.Toml

variable {steps room : Nat}

/-! ## Numbers -/

/-- What follows a number and does not continue it, as a number or as a date. -/
def EndsRun (after : List Char) : Prop :=
  ∀ c ∈ after.head?, isNumberChar c = false ∧ c ≠ ' '

theorem isDigit_toDigits (n : Nat) : ∀ c ∈ Nat.toDigits 10 n, c.isDigit = true :=
  fun _ member => Nat.isDigit_of_mem_toDigits (by omega) (by omega) member

theorem ungroup?_digits {digits : List Char} (all : ∀ c ∈ digits, c.isDigit = true)
    (filled : digits ≠ []) (afterDigit : Bool) :
    ungroup? Char.isDigit afterDigit digits = some digits := by
  induction digits generalizing afterDigit with
  | nil => exact absurd rfl filled
  | cons c rest ih =>
      have first := all c List.mem_cons_self
      rw [ungroup?, if_pos first]
      cases rest with
      | nil => rfl
      | cons next rest =>
          rw [ih (fun c member => all c (List.mem_cons_of_mem _ member)) (by simp)]
          rfl

theorem decimalDigits?_toDigits (n : Nat) :
    decimalDigits? (Nat.toDigits 10 n) = some (Nat.toDigits 10 n) := by
  have noZero : ¬((Nat.toDigits 10 n).head? = some '0' ∧ (Nat.toDigits 10 n).length ≠ 1) := by
    rintro ⟨zero, long⟩
    by_cases positive : n = 0
    · subst positive
      exact long rfl
    · exact Json.head_toDigits positive zero
  rw [decimalDigits?, if_neg noZero]
  exact ungroup?_digits (isDigit_toDigits n) Nat.toDigits_ne_nil false

theorem numberOf_toDigits (n : Nat) : numberOf 10 (Nat.toDigits 10 n) = n := by
  have value := Json.decimalValue_toDigits n
  rw [Json.decimalValue] at value
  have same : ∀ digits : List Char, (∀ c ∈ digits, c.isDigit = true) → ∀ sofar : Nat,
      digits.foldl (fun sofar digit => sofar * 10 + digitValue digit) sofar =
        digits.foldl (fun sofar c => sofar * 10 + (c.toNat - '0'.toNat)) sofar := by
    intro digits
    induction digits with
    | nil => intro _ sofar; rfl
    | cons c rest ih =>
        intro all sofar
        have first := all c List.mem_cons_self
        have value : digitValue c = c.toNat - '0'.toNat := if_pos first
        rw [List.foldl_cons, List.foldl_cons, value]
        exact ih (fun c member => all c (List.mem_cons_of_mem _ member)) _
  rw [numberOf, same _ (isDigit_toDigits n), value]

theorem splitSign_digit {c : Char} (digit : c.isDigit = true) (rest : List Char) :
    splitSign (c :: rest) = (false, c :: rest) := by
  unfold splitSign
  split
  · next same =>
      obtain ⟨rfl, _⟩ := List.cons.inj same
      exact absurd digit (by decide)
  · next same =>
      obtain ⟨rfl, _⟩ := List.cons.inj same
      exact absurd digit (by decide)
  · rfl

theorem unboundedInteger?_toDigits (n : Nat) :
    unboundedInteger? (Nat.toDigits 10 n) = some (n : Int) := by
  have digits := isDigit_toDigits n
  have second : ∀ c c' rest, Nat.toDigits 10 n = c :: c' :: rest → c'.isDigit = true := by
    intro c c' rest shape
    exact digits c' (by simp [shape])
  unfold unboundedInteger?
  split
  · next shape => exact absurd (second _ _ _ shape) (by decide)
  · next shape => exact absurd (second _ _ _ shape) (by decide)
  · next shape => exact absurd (second _ _ _ shape) (by decide)
  · obtain ⟨first, later, shape⟩ := List.exists_cons_of_ne_nil (@Nat.toDigits_ne_nil n 10)
    have unsigned : splitSign (Nat.toDigits 10 n) = (false, Nat.toDigits 10 n) := by
      rw [shape]
      exact splitSign_digit (digits first (by simp [shape])) later
    rw [unsigned]
    simp [decimalDigits?_toDigits, numberOf_toDigits]

theorem integer?_toDigits {n : Nat} (small : n < 0x100000000) :
    integer? (Nat.toDigits 10 n) = some (n : Int) := by
  have fits : -0x8000000000000000 ≤ (n : Int) ∧ (n : Int) < 0x8000000000000000 := by
    constructor <;> omega
  unfold integer?
  rw [unboundedInteger?_toDigits]
  exact if_pos fits

theorem readNumber?_toString {n : Nat} (small : n < 0x100000000) {after : List Char}
    (ends : EndsRun after) :
    readNumber? ((toString n).toList ++ after) = some (.integer n, after) := by
  have run : ∀ c ∈ Nat.toDigits 10 n, isNumberChar c = true := by
    intro c member
    simp [isNumberChar, Char.isAlphanum, isDigit_toDigits n c member]
  have front : after.takeWhile isNumberChar = [] ∧ after.dropWhile isNumberChar = after := by
    cases after with
    | nil => exact ⟨rfl, rfl⟩
    | cons c after => simp [(ends c rfl).1]
  have read : ofRun? (Nat.toDigits 10 n) = some (.integer n) := by
    rw [ofRun?, integer?_toDigits small]
  rw [Nat.toString_eq_ofList_toDigits, String.toList_ofList]
  simp only [readNumber?, List.takeWhile_append_of_pos run, List.dropWhile_append_of_pos run,
    front, List.append_nil, read]
  split
  · exact absurd rfl (ends ' ' rfl).2
  · rfl

/-! ## Strings -/

/-- The characters that stand for themselves in a string. -/
def isPlainChar (c : Char) : Bool := isPrintable c && c != '"' && c != '\\'

theorem basicRest_plain {content : List Char} (plain : ∀ c ∈ content, isPlainChar c = true)
    (enough : content.length < steps) (after : List Char) :
    basicRest steps (content ++ '"' :: after) = some (content, after) := by
  induction content generalizing steps with
  | nil =>
      cases steps with
      | zero => exact absurd enough (Nat.not_lt_zero _)
      | succ steps => rfl
  | cons c content ih =>
      have first := plain c List.mem_cons_self
      simp only [isPlainChar, Bool.and_eq_true, bne_iff_ne] at first
      obtain ⟨⟨printable, notQuote⟩, notBackslash⟩ := first
      cases steps with
      | zero => exact absurd enough (Nat.not_lt_zero _)
      | succ steps =>
          have later := ih (fun c member => plain c (List.mem_cons_of_mem _ member))
            (Nat.lt_of_succ_lt_succ enough)
          rw [List.cons_append, basicRest, if_neg notQuote, if_neg notBackslash, if_pos printable,
            later]
          rfl

theorem readString?_plain {content : List Char} (plain : ∀ c ∈ content, isPlainChar c = true)
    (filled : content ≠ []) (after : List Char) :
    readString? ('"' :: (content ++ '"' :: after)) = some (String.ofList content, after) := by
  obtain ⟨c, more, rfl⟩ := List.exists_cons_of_ne_nil filled
  have first := plain c List.mem_cons_self
  have notQuote : c ≠ '"' := by
    rintro rfl
    exact absurd first (by decide)
  have short : readShortString? ('"' :: (c :: more ++ '"' :: after)) =
      some (String.ofList (c :: more), after) := by
    have enough : (c :: more).length < (c :: more ++ '"' :: after).length + 1 := by
      rw [List.length_append]
      omega
    rw [readShortString?, basicRest_plain plain enough]
    rfl
  rw [← short]
  unfold readString?
  split
  · next same =>
      have quotes := (List.cons.inj (List.cons.inj same).2).1
      exact absurd quotes notQuote
  · next same => exact absurd (List.cons.inj same).1 (by decide)
  · rfl

/-! ## Values -/

theorem readValue_truth (value : Bool) (after : List Char) :
    readValue (steps + 1) room ((if value then "true" else "false").toList ++ after) =
      some (.boolean value, after) := by
  cases value <;> rfl

/-- What begins neither a truth value nor an array or table is a string or a number. -/
theorem readValue_scalar {c : Char} (rest : List Char)
    (other : c ≠ 't' ∧ c ≠ 'f' ∧ c ≠ '[' ∧ c ≠ '\x7b') :
    readValue (steps + 1) room (c :: rest) =
      match readString? (c :: rest) with
      | some (content, after) => some (.string content, after)
      | none => readNumber? (c :: rest) := by
  obtain ⟨notTrue, notFalse, notArray, notTable⟩ := other
  simp only [readValue]
  split
  · next same => exact absurd (List.cons.inj same).1 notTrue
  · next same => exact absurd (List.cons.inj same).1 notFalse
  · next same => exact absurd (List.cons.inj same).1 notArray
  · next same => exact absurd (List.cons.inj same).1 notTable
  · rfl

theorem readValue_string {content : List Char} (plain : ∀ c ∈ content, isPlainChar c = true)
    (filled : content ≠ []) (after : List Char) :
    readValue (steps + 1) room ('"' :: (content ++ '"' :: after)) =
      some (.string (String.ofList content), after) := by
  rw [readValue_scalar _ (by decide), readString?_plain plain filled]

theorem readString?_digit {c : Char} (digit : c.isDigit = true) (rest : List Char) :
    readString? (c :: rest) = none := by
  have notQuote : c ≠ '"' := by
    rintro rfl
    exact absurd digit (by decide)
  have notPrime : c ≠ '\'' := by
    rintro rfl
    exact absurd digit (by decide)
  unfold readString?
  split
  · next same => exact absurd (List.cons.inj same).1 notQuote
  · next same => exact absurd (List.cons.inj same).1 notPrime
  · unfold readShortString?
    split
    · next same => exact absurd (List.cons.inj same).1 notQuote
    · next same => exact absurd (List.cons.inj same).1 notPrime
    · rfl

theorem readValue_natural {n : Nat} (small : n < 0x100000000) {after : List Char}
    (ends : EndsRun after) :
    readValue (steps + 1) room ((toString n).toList ++ after) = some (.integer n, after) := by
  obtain ⟨first, later, shape, digit⟩ := Json.isDigit_head_toString n
  have other : first ≠ 't' ∧ first ≠ 'f' ∧ first ≠ '[' ∧ first ≠ '\x7b' := by
    refine ⟨?_, ?_, ?_, ?_⟩ <;> rintro rfl <;> exact absurd digit (by decide)
  have read := readNumber?_toString small ends
  rw [shape, List.cons_append] at read ⊢
  rw [readValue_scalar _ other, readString?_digit digit, read]

/-! ## Arrays -/

/-- A character at which a reader that skips blanks, comments and line breaks stops. -/
def isSolid (c : Char) : Bool := !isSpace c && c != '\n' && c != '\r' && c != '#'

theorem isSolid_spec {c : Char} (solid : isSolid c = true) :
    isSpace c = false ∧ c ≠ '\n' ∧ c ≠ '\r' ∧ c ≠ '#' := by
  simpa [isSolid, and_assoc] using solid

theorem skipLayout_solid {c : Char} (solid : isSolid c = true) (rest : List Char) :
    skipLayout false (c :: rest) = c :: rest := by
  obtain ⟨notSpace, notFeed, notReturn, notHash⟩ := isSolid_spec solid
  unfold skipLayout
  split
  · next same => cases same
  · next same => exact absurd (List.cons.inj same).1 notReturn
  · next c' rest' _ same =>
      obtain ⟨rfl, rfl⟩ := List.cons.inj same
      simp [notFeed, notSpace, notHash]

theorem isSolid_digit {c : Char} (digit : c.isDigit = true) : isSolid c = true := by
  have other : ∀ c', c'.isDigit = false → c ≠ c' := by
    rintro c' plain rfl
    rw [digit] at plain
    cases plain
  simp [isSolid, isSpace, other ' ' (by decide), other '\t' (by decide), other '\n' (by decide),
    other '\r' (by decide), other '#' (by decide)]

def itemLine (n : Nat) : List Char := "    ".toList ++ ((toString n).toList ++ ",\n".toList)

theorem skipLayout_number (n : Nat) (rest : List Char) :
    skipLayout false ((toString n).toList ++ rest) = (toString n).toList ++ rest := by
  obtain ⟨first, later, shape, digit⟩ := Json.isDigit_head_toString n
  rw [shape, List.cons_append, skipLayout_solid (isSolid_digit digit)]

theorem readItems_item {text inside rest : List Char} {value : Toml}
    (layout : skipLayout false text = inside) (item : inside.head? ≠ some ']')
    (read : readValue steps room inside = some (value, ',' :: rest)) :
    readItems (steps + 1) room text =
      (readItems steps room rest).map fun cut => (value :: cut.1, cut.2) := by
  have comma : skipLayout false (',' :: rest) = ',' :: rest := skipLayout_solid (by decide) rest
  rw [readItems, layout]
  split
  · exact absurd rfl item
  · rw [read]
    simp only [Option.bind_eq_bind, Option.bind_some, comma]
    cases readItems steps room rest <;> rfl

theorem readItems_last {text inside rest : List Char} {value : Toml}
    (layout : skipLayout false text = inside) (item : inside.head? ≠ some ']')
    (read : readValue steps room inside = some (value, ']' :: rest)) :
    readItems (steps + 1) room text = some ([value], rest) := by
  have bracket : skipLayout false (']' :: rest) = ']' :: rest := skipLayout_solid (by decide) rest
  rw [readItems, layout]
  split
  · exact absurd rfl item
  · rw [read]
    simp only [Option.bind_eq_bind, Option.bind_some, bracket]
    rfl

theorem head_number_ne_bracket (n : Nat) (rest : List Char) :
    ((toString n).toList ++ rest).head? ≠ some ']' := by
  obtain ⟨first, later, shape, digit⟩ := Json.isDigit_head_toString n
  rw [shape]
  rintro same
  obtain rfl := Option.some.inj same
  exact absurd digit (by decide)

theorem readItems_lines {numbers : List Nat} (small : ∀ n ∈ numbers, n < 0x100000000)
    (enough : numbers.length < steps) (after : List Char) :
    readItems steps room ('\n' :: (numbers.flatMap itemLine ++ ']' :: after)) =
      some (numbers.map fun n => .integer n, after) := by
  induction numbers generalizing steps with
  | nil =>
      obtain ⟨steps, rfl⟩ := Nat.exists_eq_succ_of_ne_zero (Nat.ne_of_gt enough)
      rfl
  | cons n numbers ih =>
      obtain ⟨steps, rfl⟩ : ∃ fewer, steps = fewer + 2 := by
        exact ⟨steps - 2, by simp only [List.length_cons] at enough; omega⟩
      have fewer : numbers.length < steps + 1 := Nat.lt_of_succ_lt_succ enough
      have later := ih (fun n member => small n (List.mem_cons_of_mem _ member)) fewer
      have ends : EndsRun (',' :: '\n' :: (numbers.flatMap itemLine ++ ']' :: after)) := by
        simp [EndsRun, isNumberChar]
      have value : readValue (steps + 1) room ((toString n).toList ++
          ',' :: '\n' :: (numbers.flatMap itemLine ++ ']' :: after)) = some (.integer n, _) :=
        readValue_natural (small n List.mem_cons_self) ends
      have layout : skipLayout false ('\n' :: ((n :: numbers).flatMap itemLine ++ ']' :: after)) =
          (toString n).toList ++ ',' :: '\n' :: (numbers.flatMap itemLine ++ ']' :: after) := by
        rw [← skipLayout_number]
        simp [itemLine, skipLayout, isSpace]
      rw [readItems_item layout (head_number_ne_bracket n _) value, later]
      rfl

theorem length_le_itemLines (numbers : List Nat) :
    numbers.length ≤ (numbers.flatMap itemLine).length := by
  induction numbers with
  | nil => exact Nat.le_refl 0
  | cons n numbers ih =>
      have line : 1 ≤ (itemLine n).length := by simp [itemLine]
      rw [List.flatMap_cons, List.length_append, List.length_cons]
      omega

/-- Numbers in brackets: on one line if there is at most one, else one a line. -/
def arrayText : List Nat → List Char
  | [] => "[]".toList
  | [n] => '[' :: ((toString n).toList ++ "]".toList)
  | numbers => '[' :: '\n' :: (numbers.flatMap itemLine ++ "]".toList)

/-- The text is read as the value at the end of a line. -/
def ReadsAs (text : List Char) (value : Toml) : Prop :=
  ∀ steps rest, text.length < steps →
    readValue steps nestingLimit (text ++ '\n' :: rest) = some (value, '\n' :: rest)

theorem readsAs_arrayText {numbers : List Nat} (small : ∀ n ∈ numbers, n < 0x100000000) :
    ReadsAs (arrayText numbers) (.array (numbers.map fun n : Nat => .integer n)) := by
  intro steps rest enough
  have inside : ∀ {items after fewer} {text : List Char},
      readItems fewer (nestingLimit - 1) text = some (items, after) →
      readValue (fewer + 1) nestingLimit ('[' :: text) = some (.array items, after) := by
    intro items after fewer text read
    have room : nestingLimit ≠ 0 := by decide
    simp only [readValue, if_neg room, read]
    rfl
  match numbers with
  | [] =>
      obtain ⟨fewer, rfl⟩ : ∃ fewer, steps = fewer + 2 := by
        exact ⟨steps - 2, by simp [arrayText] at enough; omega⟩
      exact inside rfl
  | [n] =>
      obtain ⟨fewer, rfl⟩ : ∃ fewer, steps = fewer + 3 := by
        exact ⟨steps - 3, by simp [arrayText] at enough; omega⟩
      have ends : EndsRun (']' :: '\n' :: rest) := by simp [EndsRun, isNumberChar]
      have value : readValue (fewer + 1) (nestingLimit - 1)
          ((toString n).toList ++ ']' :: '\n' :: rest) = some (.integer n, _) :=
        readValue_natural (small n List.mem_cons_self) ends
      have text : arrayText [n] ++ '\n' :: rest =
          '[' :: ((toString n).toList ++ ']' :: '\n' :: rest) := by simp [arrayText]
      rw [text]
      exact inside (readItems_last (skipLayout_number n _) (head_number_ne_bracket n _) value)
  | n :: n' :: more =>
      have lines := length_le_itemLines (n :: n' :: more)
      have longer : (n :: n' :: more).length + 2 ≤ (arrayText (n :: n' :: more)).length := by
        simp only [arrayText, List.length_cons, List.length_append] at lines ⊢
        omega
      obtain ⟨fewer, rfl⟩ : ∃ fewer, steps = fewer + 1 := by
        exact ⟨steps - 1, by omega⟩
      have text : arrayText (n :: n' :: more) ++ '\n' :: rest = '[' ::
          '\n' :: ((n :: n' :: more).flatMap itemLine ++ ']' :: '\n' :: rest) := by
        simp [arrayText]
      rw [text]
      exact inside (readItems_lines small (by omega) _)

/-! ## Statements -/

theorem readsAs_truth (value : Bool) :
    ReadsAs (if value then "true" else "false").toList (.boolean value) := by
  intro steps rest enough
  obtain ⟨steps, rfl⟩ := Nat.exists_eq_succ_of_ne_zero (Nat.ne_zero_of_lt enough)
  exact readValue_truth value _

theorem readsAs_string {content : List Char} (plain : ∀ c ∈ content, isPlainChar c = true)
    (filled : content ≠ []) :
    ReadsAs ('"' :: (content ++ ['"'])) (.string (String.ofList content)) := by
  intro steps rest enough
  obtain ⟨steps, rfl⟩ := Nat.exists_eq_succ_of_ne_zero (Nat.ne_zero_of_lt enough)
  have read := @readValue_string steps nestingLimit content plain filled ('\n' :: rest)
  simpa using read

theorem isSolid_bare {c : Char} (bare : isBareKeyChar c = true) : isSolid c = true ∧ c ≠ '[' := by
  have other : ∀ c', isBareKeyChar c' = false → c ≠ c' := by
    rintro c' plain rfl
    rw [bare] at plain
    cases plain
  refine ⟨?_, other '[' (by decide)⟩
  simp [isSolid, isSpace, other ' ' (by decide), other '\t' (by decide), other '\n' (by decide),
    other '\r' (by decide), other '#' (by decide)]

theorem skipSpace_solid {c : Char} (solid : isSolid c = true) (rest : List Char) :
    skipSpace (c :: rest) = c :: rest := by
  rw [skipSpace, List.dropWhile_cons_of_neg]
  simp [(isSolid_spec solid).1]

theorem endOfLine?_solid {c : Char} (solid : isSolid c = true) (rest : List Char) :
    endOfLine? (c :: rest) = none := by
  obtain ⟨_, notFeed, notReturn, notHash⟩ := isSolid_spec solid
  have noComment : ¬(c :: rest).head? = some '#' := fun same => notHash (Option.some.inj same)
  simp only [endOfLine?, skipSpace_solid solid, if_neg noComment]
  unfold lineBreak?
  split
  · cases ‹(c :: rest).isEmpty = true›
  · split
    · next same => exact absurd (List.cons.inj same).1 notFeed
    · next same => exact absurd (List.cons.inj same).1 notReturn
    · rfl

theorem endOfLine?_lineFeed (rest : List Char) : endOfLine? ('\n' :: rest) = some rest := by
  simp [endOfLine?, skipSpace, isSpace, lineBreak?]

theorem readStatements_blank (lines : Nat) (rest : List Char) :
    readStatements (lines + 1) ('\n' :: rest) = readStatements lines rest := by
  simp [readStatements, endOfLine?_lineFeed]

/-- A statement that takes its line up to the line feed. -/
theorem readStatements_line {c : Char} (solid : isSolid c = true) {rest after : List Char}
    {statement : Statement} (read : readStatement? (c :: rest) = some (statement, '\n' :: after))
    (lines : Nat) :
    readStatements (lines + 1) (c :: rest) =
      (readStatements lines after).map fun later => statement :: later := by
  simp only [readStatements, List.isEmpty_cons, Bool.false_eq_true, if_false,
    endOfLine?_solid solid, skipSpace_solid solid, read, Option.bind_eq_bind, Option.bind_some,
    endOfLine?_lineFeed]
  cases readStatements lines after <;> rfl

section Lines

variable {key : List Char} (bare : key.all isBareKeyChar = true) (filled : key ≠ [])

include bare filled

theorem readKey?_bare {c : Char} {rest after : List Char} (ends : isBareKeyChar c = false)
    (behind : skipSpace (c :: rest) = after) (single : after.head? ≠ some '.') :
    readKey? (key ++ c :: rest) = some ([String.ofList key], after) := by
  obtain ⟨first, later, shape⟩ := List.exists_cons_of_ne_nil filled
  have bare := List.all_eq_true.mp bare
  have solid := (isSolid_bare (bare first (by simp [shape]))).1
  have front : skipSpace (key ++ c :: rest) = key ++ c :: rest := by
    rw [shape, List.cons_append, skipSpace_solid solid]
  have part : readKeyPart? (key ++ c :: rest) = some (String.ofList key, c :: rest) := by
    simp [readKeyPart?, List.takeWhile_append_of_pos bare, List.dropWhile_append_of_pos bare, ends,
      filled]
  rw [readKey?, readKeyParts?, front, part]
  simp only [Option.bind_eq_bind, Option.bind_some, behind]
  split
  · exact absurd rfl single
  · rfl

/-- The header of a table on its line. -/
theorem readStatements_header (lines : Nat) (rest : List Char) :
    readStatements (lines + 1) ('[' :: (key ++ ']' :: '\n' :: rest)) =
      (readStatements lines rest).map fun later => .table [String.ofList key] :: later := by
  have path : readKey? (key ++ ']' :: '\n' :: rest) = some ([String.ofList key], _) :=
    readKey?_bare bare filled (by decide) (skipSpace_solid (by decide) _) (by simp)
  have statement : readStatement? ('[' :: (key ++ ']' :: '\n' :: rest)) =
      some (.table [String.ofList key], '\n' :: rest) := by
    unfold readStatement?
    split
    · next same =>
        obtain ⟨first, later, shape⟩ := List.exists_cons_of_ne_nil filled
        rw [shape] at same
        have bracket := (List.cons.inj (List.cons.inj same).2).1
        have inKey : isBareKeyChar first = true := List.all_eq_true.mp bare first (by simp [shape])
        exact absurd bracket (isSolid_bare inKey).2
    · next same =>
        obtain rfl := (List.cons.inj same).2
        rw [path]
        rfl
    · next other => exact absurd rfl (other _)
  exact readStatements_line (by decide) statement lines

/-- A bare key with a value on its line. -/
theorem readStatements_assign {text : List Char} {value : Toml} (reads : ReadsAs text value)
    {c : Char} {more : List Char} (begins : text = c :: more) (solid : isSolid c = true)
    (lines : Nat) (rest : List Char) :
    readStatements (lines + 1) (key ++ ' ' :: '=' :: ' ' :: (text ++ '\n' :: rest)) =
      (readStatements lines rest).map fun later => .assign [String.ofList key] value :: later := by
  have path : readKey? (key ++ ' ' :: '=' :: ' ' :: (text ++ '\n' :: rest)) =
      some ([String.ofList key], '=' :: ' ' :: (text ++ '\n' :: rest)) :=
    readKey?_bare bare filled (by decide) rfl (by simp)
  have behind : skipSpace (' ' :: (text ++ '\n' :: rest)) = text ++ '\n' :: rest := by
    rw [begins, List.cons_append]
    exact skipSpace_solid solid _
  have read := reads (2 * (text ++ '\n' :: rest).length + 1) rest (by
    rw [List.length_append]
    omega)
  obtain ⟨first, later, shape⟩ := List.exists_cons_of_ne_nil filled
  have inKey : isBareKeyChar first = true := List.all_eq_true.mp bare first (by simp [shape])
  obtain ⟨firstSolid, notBracket⟩ := isSolid_bare inKey
  have statement : readStatement? (key ++ ' ' :: '=' :: ' ' :: (text ++ '\n' :: rest)) =
      some (.assign [String.ofList key] value, '\n' :: rest) := by
    unfold readStatement?
    split
    · next same =>
        rw [shape] at same
        exact absurd (List.cons.inj same).1 notBracket
    · next same =>
        rw [shape] at same
        exact absurd (List.cons.inj same).1 notBracket
    · rw [path]
      simp only [Option.bind_eq_bind, Option.bind_some, behind, read]
      rfl
  rw [shape, List.cons_append] at statement ⊢
  exact readStatements_line firstSolid statement lines

end Lines

end ApiCompat.Toml
