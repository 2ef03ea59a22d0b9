import ApiCompat.Proofs.Json.Scalars

/-!
# Reading values that were written

`Spelled` says how a value may be written: blanks may stand inside a bracket
and behind a comma or a colon.  Both layouts write values so, and whatever is
written so is read as the value.
-/

set_option autoImplicit false

namespace ApiCompat.Json

def Blank (gap : List Char) : Prop := ∀ c ∈ gap, isSpace c = true

mutual

inductive Spelled : Json → List Char → Prop
  | null : Spelled null "null".toList
  | yes : Spelled (bool true) "true".toList
  | no : Spelled (bool false) "false".toList
  | natural (value : Nat) : Spelled (natural value) (toString value).toList
  | string (value : String) : Spelled (string value) (quote value).toList
  | noItems : Spelled (array []) ['[', ']']
  | array {items : List Json} {gap text : List Char} (blank : Blank gap)
      (inside : SpelledItems items text) : Spelled (array items) ('[' :: (gap ++ text))
  | noFields : Spelled (object []) ['\x7b', '\x7d']
  | object {fields : List (String × Json)} {gap text : List Char} (blank : Blank gap)
      (inside : SpelledFields fields text) : Spelled (object fields) ('\x7b' :: (gap ++ text))

/-- The text of the items of an array, with its closing bracket. -/
inductive SpelledItems : List Json → List Char → Prop
  | last {item : Json} {text gap : List Char} (spelled : Spelled item text) (blank : Blank gap) :
      SpelledItems [item] (text ++ (gap ++ [']']))
  | cons {item : Json} {later : List Json} {text gap more : List Char}
      (spelled : Spelled item text) (blank : Blank gap) (rest : SpelledItems later more) :
      SpelledItems (item :: later) (text ++ ',' :: (gap ++ more))

/-- The text of the fields of an object, with its closing brace. -/
inductive SpelledFields : List (String × Json) → List Char → Prop
  | last (name : String) {value : Json} {before text gap : List Char} (colon : Blank before)
      (spelled : Spelled value text) (blank : Blank gap) :
      SpelledFields [(name, value)]
        ((quote name).toList ++ ':' :: (before ++ (text ++ (gap ++ ['\x7d']))))
  | cons (name : String) {value : Json} {later : List (String × Json)}
      {before text gap more : List Char} (colon : Blank before) (spelled : Spelled value text)
      (blank : Blank gap) (rest : SpelledFields later more) :
      SpelledFields ((name, value) :: later)
        ((quote name).toList ++ ':' :: (before ++ (text ++ ',' :: (gap ++ more))))

end

/-! ## How texts begin -/

/-- A text that begins with something other than a blank or a closing bracket. -/
def Begins (text : List Char) : Prop :=
  ∃ c rest, text = c :: rest ∧ isSpace c = false ∧ c ≠ ']' ∧ c ≠ '\x7d'

theorem quote_toList (text : String) :
    (quote text).toList = '"' :: (text.toList.flatMap escapeChar ++ ['"']) := by
  simp [quote]

theorem begins_quote (text : String) : Begins (quote text).toList :=
  ⟨_, _, quote_toList text, by decide, by decide, by decide⟩

theorem Begins.append {text : List Char} (begins : Begins text) (rest : List Char) :
    Begins (text ++ rest) := by
  obtain ⟨c, later, rfl, space, bracket, brace⟩ := begins
  exact ⟨c, later ++ rest, rfl, space, bracket, brace⟩

theorem Begins.length_pos {text : List Char} (begins : Begins text) : 0 < text.length := by
  obtain ⟨c, rest, rfl, _⟩ := begins
  exact Nat.succ_pos _

theorem begins_natural (value : Nat) : Begins (toString value).toList := by
  obtain ⟨first, later, shape, digit⟩ := isDigit_head_toString value
  refine ⟨first, later, shape, ?_, ?_, ?_⟩
  · cases space : isSpace first with
    | false => rfl
    | true =>
        simp only [isSpace, Bool.or_eq_true, beq_iff_eq] at space
        rcases space with ((rfl | rfl) | rfl) | rfl <;> exact absurd digit (by decide)
  · rintro rfl
    exact absurd digit (by decide)
  · rintro rfl
    exact absurd digit (by decide)

theorem Spelled.begins {json : Json} {text : List Char} (spelled : Spelled json text) :
    Begins text := by
  cases spelled with
  | null => exact ⟨'n', _, rfl, by decide, by decide, by decide⟩
  | yes => exact ⟨'t', _, rfl, by decide, by decide, by decide⟩
  | no => exact ⟨'f', _, rfl, by decide, by decide, by decide⟩
  | natural value => exact begins_natural value
  | string value => exact begins_quote value
  | noItems => exact ⟨_, _, rfl, by decide, by decide, by decide⟩
  | array blank inside => exact ⟨_, _, rfl, by decide, by decide, by decide⟩
  | noFields => exact ⟨_, _, rfl, by decide, by decide, by decide⟩
  | object blank inside => exact ⟨_, _, rfl, by decide, by decide, by decide⟩

theorem SpelledItems.begins {items : List Json} {text : List Char}
    (spelled : SpelledItems items text) : Begins text := by
  cases spelled with
  | last spelled blank => exact spelled.begins.append _
  | cons spelled blank rest => exact spelled.begins.append _

theorem SpelledFields.begins {fields : List (String × Json)} {text : List Char}
    (spelled : SpelledFields fields text) : Begins text := by
  cases spelled with
  | last name colon spelled blank => exact (begins_quote name).append _
  | cons name colon spelled blank rest => exact (begins_quote name).append _

/-! ## Blanks -/

theorem skipSpace_blank {gap text : List Char} (blank : Blank gap) (begins : Begins text) :
    skipSpace (gap ++ text) = text := by
  obtain ⟨c, rest, rfl, space, _⟩ := begins
  rw [skipSpace, List.dropWhile_append_of_pos blank, List.dropWhile_cons_of_neg (by simp [space])]

theorem skipSpace_mark {gap rest : List Char} {mark : Char} (blank : Blank gap)
    (visible : isSpace mark = false) : skipSpace (gap ++ mark :: rest) = mark :: rest := by
  rw [skipSpace, List.dropWhile_append_of_pos blank,
    List.dropWhile_cons_of_neg (by simp [visible])]

/-- A number ends before a blank and before a mark. -/
theorem endsNumber_blank {gap rest : List Char} {mark : Char} (blank : Blank gap)
    (isMark : mark ∈ [',', ']', '\x7d']) : EndsNumber (gap ++ mark :: rest) := by
  intro c member
  have known : c = ' ' ∨ c = '\t' ∨ c = '\n' ∨ c = '\r' ∨ c = ',' ∨ c = ']' ∨ c = '\x7d' := by
    cases gap with
    | nil =>
        obtain rfl := Option.some.inj member
        simpa using .inr (.inr (.inr (.inr (by simpa using isMark))))
    | cons space gap =>
        obtain rfl := Option.some.inj member
        have spaces := blank space List.mem_cons_self
        simp only [isSpace, Bool.or_eq_true, beq_iff_eq] at spaces
        rcases spaces with ((rfl | rfl) | rfl) | rfl <;> simp
  rcases known with rfl | rfl | rfl | rfl | rfl | rfl | rfl <;> decide

/-! ## Reading -/

theorem readValue_string (steps : Nat) (value : String) (rest : List Char) :
    readValue (steps + 1) ((quote value).toList ++ rest) = some (string value, rest) := by
  have text : (quote value).toList ++ rest =
      '"' :: (value.toList.flatMap escapeChar ++ '"' :: rest) := by
    rw [quote_toList]
    simp
  rw [text]
  simp [readValue, readString_escaped]

theorem readValue_natural (steps : Nat) (value : Nat) {rest : List Char} (ends : EndsNumber rest) :
    readValue (steps + 1) ((toString value).toList ++ rest) = some (natural value, rest) := by
  rw [← readNumber_natural value ends]
  obtain ⟨first, later, shape, digit⟩ := isDigit_head_toString value
  rw [shape, List.cons_append]
  unfold readValue
  split
  all_goals first
    | rfl
    | next same => rw [(List.cons.inj same).1] at digit; exact absurd digit (by decide)

theorem readValue_array (steps : Nat) {gap inside : List Char} (blank : Blank gap)
    (begins : Begins inside) :
    readValue (steps + 1) ('[' :: (gap ++ inside)) =
      (readItems steps inside).map fun read => (array read.1, read.2) := by
  have skipped := skipSpace_blank blank begins
  obtain ⟨c, rest, rfl, _, notBracket, _⟩ := begins
  unfold readValue
  simp only [skipped]
  split
  · next same => exact absurd (List.cons.inj same).1 notBracket
  · cases readItems steps (c :: rest) <;> rfl

theorem readValue_object (steps : Nat) {gap inside : List Char} (blank : Blank gap)
    (begins : Begins inside) :
    readValue (steps + 1) ('\x7b' :: (gap ++ inside)) =
      (readFields steps inside).map fun read => (objectOf read.1, read.2) := by
  have skipped := skipSpace_blank blank begins
  obtain ⟨c, rest, rfl, _, _, notBrace⟩ := begins
  unfold readValue
  simp only [skipped]
  split
  · next same => exact absurd (List.cons.inj same).1 notBrace
  · cases readFields steps (c :: rest) <;> rfl

theorem readItems_last {steps : Nat} {item : Json} {text gap rest : List Char}
    (read : readValue steps text = some (item, gap ++ ']' :: rest)) (blank : Blank gap) :
    readItems (steps + 1) text = some ([item], rest) := by
  have bracket := @skipSpace_mark gap rest ']' blank (by decide)
  simp [readItems, read, bracket]

theorem readItems_cons {steps : Nat} {item : Json} {later : List Json}
    {text gap more rest : List Char}
    (read : readValue steps text = some (item, ',' :: (gap ++ more))) (blank : Blank gap) (begins : Begins more)
    (readLater : readItems steps more = some (later, rest)) :
    readItems (steps + 1) text = some (item :: later, rest) := by
  have comma : skipSpace (',' :: (gap ++ more)) = ',' :: (gap ++ more) := rfl
  simp [readItems, read, comma, skipSpace_blank blank begins, readLater]

theorem readFields_last {steps : Nat} {value : Json} (name : String)
    {before text gap rest : List Char} (colon : Blank before) (begins : Begins text)
    (read : readValue steps text = some (value, gap ++ '\x7d' :: rest)) (blank : Blank gap) :
    readFields (steps + 1) ((quote name).toList ++ ':' :: (before ++ text)) =
      some ([(some name, value)], rest) := by
  have mark : skipSpace (':' :: (before ++ text)) = ':' :: (before ++ text) := rfl
  have brace := @skipSpace_mark gap rest '\x7d' blank (by decide)
  simp [readFields, quote_toList, readString_escaped, mark, skipSpace_blank colon begins, read,
    brace]

theorem readFields_cons {steps : Nat} {value : Json} {later : List (Option String × Json)}
    (name : String) {before text gap more rest : List Char} (colon : Blank before)
    (begins : Begins text) (read : readValue steps text = some (value, ',' :: (gap ++ more)))
    (blank : Blank gap) (beginsMore : Begins more)
    (readLater : readFields steps more = some (later, rest)) :
    readFields (steps + 1) ((quote name).toList ++ ':' :: (before ++ text)) =
      some ((some name, value) :: later, rest) := by
  have mark : skipSpace (':' :: (before ++ text)) = ':' :: (before ++ text) := rfl
  have comma : skipSpace (',' :: (gap ++ more)) = ',' :: (gap ++ more) := rfl
  simp [readFields, quote_toList, readString_escaped, mark, skipSpace_blank colon begins, read,
    comma, skipSpace_blank blank beginsMore, readLater]

theorem objectOf_named (fields : List (String × Json)) :
    objectOf (fields.map fun field => (some field.1, field.2)) = object fields := by
  have all : (fields.map fun field => (some field.1, field.2)).mapM
      (fun field : Option String × Json => field.1.map fun name => (name, field.2)) =
        some fields := by
    induction fields with
    | nil => rfl
    | cons field fields ih => simp [ih]
  rw [objectOf, all]

/-- Every value takes at most two steps a character. -/
def ReadsIn (steps : Nat) : Prop :=
  (∀ {json : Json} {text rest : List Char}, Spelled json text → 2 * text.length ≤ steps →
    EndsNumber rest → readValue steps (text ++ rest) = some (json, rest)) ∧
  (∀ {items : List Json} {text rest : List Char}, SpelledItems items text →
    2 * text.length + 1 ≤ steps → readItems steps (text ++ rest) = some (items, rest)) ∧
  ∀ {fields : List (String × Json)} {text rest : List Char}, SpelledFields fields text →
    2 * text.length + 1 ≤ steps → readFields steps (text ++ rest) =
      some (fields.map fun field => (some field.1, field.2), rest)

theorem ReadsIn.value {steps : Nat} (reads : ReadsIn steps) {json : Json} {text rest : List Char}
    (spelled : Spelled json text) (enough : 2 * text.length ≤ steps + 1)
    (ends : EndsNumber rest) : readValue (steps + 1) (text ++ rest) = some (json, rest) := by
  cases spelled with
  | null => rfl
  | yes => rfl
  | no => rfl
  | natural value => exact readValue_natural steps value ends
  | string value => exact readValue_string steps value rest
  | noItems => rfl
  | @array items gap text blank inside =>
      simp only [List.length_cons, List.length_append] at enough
      rw [List.cons_append, List.append_assoc,
        readValue_array steps blank (inside.begins.append rest), reads.2.1 inside (by omega)]
      rfl
  | noFields => rfl
  | @object fields gap text blank inside =>
      simp only [List.length_cons, List.length_append] at enough
      rw [List.cons_append, List.append_assoc,
        readValue_object steps blank (inside.begins.append rest), reads.2.2 inside (by omega),
        Option.map_some, objectOf_named]

theorem ReadsIn.items {steps : Nat} (reads : ReadsIn steps) {items : List Json}
    {text rest : List Char} (spelled : SpelledItems items text)
    (enough : 2 * text.length + 1 ≤ steps + 1) :
    readItems (steps + 1) (text ++ rest) = some (items, rest) := by
  cases spelled with
  | @last item text gap spelled blank =>
      simp only [List.length_append, List.length_cons, List.length_nil] at enough
      rw [List.append_assoc, List.append_assoc]
      exact readItems_last
        (reads.1 spelled (by omega) (endsNumber_blank blank (by simp))) blank
  | @cons item later text gap more spelled blank inside =>
      simp only [List.length_append, List.length_cons] at enough
      have comma : EndsNumber (',' :: (gap ++ (more ++ rest))) :=
        @endsNumber_blank [] _ _ (by simp [Blank]) (by simp)
      rw [List.append_assoc, List.cons_append, List.append_assoc]
      exact readItems_cons (reads.1 spelled (by omega) comma) blank (inside.begins.append rest)
        (reads.2.1 inside (by omega))

theorem ReadsIn.fields {steps : Nat} (reads : ReadsIn steps) {fields : List (String × Json)}
    {text rest : List Char} (spelled : SpelledFields fields text)
    (enough : 2 * text.length + 1 ≤ steps + 1) :
    readFields (steps + 1) (text ++ rest) =
      some (fields.map fun field => (some field.1, field.2), rest) := by
  cases spelled with
  | @last name value before text gap colon spelled blank =>
      simp only [List.length_append, List.length_cons, List.length_nil] at enough
      have read := reads.1 spelled (by omega) (@endsNumber_blank gap rest '\x7d' blank (by simp))
      have whole := readFields_last name colon (spelled.begins.append _) read blank
      simpa using whole
  | @cons name value later before text gap more colon spelled blank inside =>
      simp only [List.length_append, List.length_cons] at enough
      have comma : EndsNumber (',' :: (gap ++ (more ++ rest))) :=
        @endsNumber_blank [] _ _ (by simp [Blank]) (by simp)
      have whole := readFields_cons name colon (spelled.begins.append _)
        (reads.1 spelled (by omega) comma) blank (inside.begins.append rest)
        (reads.2.2 inside (by omega))
      simpa using whole

theorem readsIn (steps : Nat) : ReadsIn steps := by
  induction steps with
  | zero =>
      refine ⟨fun spelled enough _ => ?_, fun _ enough => ?_, fun _ enough => ?_⟩
      · have positive := spelled.begins.length_pos
        omega
      · omega
      · omega
  | succ steps ih => exact ⟨ih.value, ih.items, ih.fields⟩

/-- A text that spells a value is read as that value. -/
theorem read_spelled {json : Json} {text : String} (spelled : Spelled json text.toList) :
    read text = some json := by
  have begins := spelled.begins
  have visible : skipSpace text.toList = text.toList :=
    @skipSpace_blank [] _ (by simp [Blank]) begins
  have value := (readsIn (2 * text.toList.length + 1)).1 spelled (by omega)
    (show EndsNumber [] from nofun)
  rw [List.append_nil] at value
  simp only [read, visible, value]
  rfl

end ApiCompat.Json
