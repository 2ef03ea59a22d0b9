import ApiCompat.Proofs.Json.Layout

/-!
# Reading printed values

A value is `Plain` when it holds neither numerals nor anything broken.  Both
layouts spell plain values, so what was printed is read back.
-/

set_option autoImplicit false

namespace ApiCompat.Json

inductive Within (inner : Json) : Json → Prop
  | self : Within inner inner
  | item {items : List Json} {item : Json} (member : item ∈ items) (inside : Within inner item) :
      Within inner (array items)
  | field {fields : List (String × Json)} {field : String × Json} (member : field ∈ fields)
      (inside : Within inner field.2) : Within inner (object fields)

def Throughout (holds : Json → Prop) (json : Json) : Prop :=
  ∀ inner : Json, Within inner json → holds inner

section Throughout

variable {holds : Json → Prop}

@[simp] theorem throughout_null : Throughout holds null ↔ holds null :=
  ⟨fun all => all _ .self, fun here _ inside => by cases inside; exact here⟩

@[simp] theorem throughout_bool (value : Bool) :
    Throughout holds (bool value) ↔ holds (bool value) :=
  ⟨fun all => all _ .self, fun here _ inside => by cases inside; exact here⟩

@[simp] theorem throughout_natural (value : Nat) :
    Throughout holds (natural value) ↔ holds (natural value) :=
  ⟨fun all => all _ .self, fun here _ inside => by cases inside; exact here⟩

@[simp] theorem throughout_string (value : String) :
    Throughout holds (string value) ↔ holds (string value) :=
  ⟨fun all => all _ .self, fun here _ inside => by cases inside; exact here⟩

@[simp] theorem throughout_array {items : List Json} :
    Throughout holds (array items) ↔
      holds (array items) ∧ ∀ item ∈ items, Throughout holds item := by
  constructor
  · intro all
    exact ⟨all _ .self, fun item member inner inside => all inner (.item member inside)⟩
  · rintro ⟨here, below⟩ inner inside
    cases inside with
    | self => exact here
    | item member inside => exact below _ member inner inside

@[simp] theorem throughout_object {fields : List (String × Json)} :
    Throughout holds (object fields) ↔
      holds (object fields) ∧ ∀ field ∈ fields, Throughout holds field.2 := by
  constructor
  · intro all
    exact ⟨all _ .self, fun field member inner inside => all inner (.field member inside)⟩
  · rintro ⟨here, below⟩ inner inside
    cases inside with
    | self => exact here
    | field member inside => exact below _ member inner inside

end Throughout

/-- A value of nothing but words, truth values, natural numbers, lists and objects. -/
def Plain (json : Json) : Prop :=
  Throughout (fun inner => inner ≠ broken ∧ ∀ text, inner ≠ numeral text) json

@[simp] theorem plain_null : Plain null := by simp [Plain]

@[simp] theorem plain_bool (value : Bool) : Plain (bool value) := by simp [Plain]

@[simp] theorem plain_natural (value : Nat) : Plain (natural value) := by simp [Plain]

@[simp] theorem plain_string (value : String) : Plain (string value) := by simp [Plain]

@[simp] theorem plain_array {items : List Json} :
    Plain (array items) ↔ ∀ item ∈ items, Plain item := by
  simp [Plain]

def PlainFields (fields : List (String × Json)) : Prop := ∀ field ∈ fields, Plain field.2

@[simp] theorem plain_object {fields : List (String × Json)} :
    Plain (object fields) ↔ PlainFields fields := by
  simp [Plain, PlainFields]

section Fields

variable {α : Type}

@[simp] theorem plainFields_nil : PlainFields [] := nofun

@[simp] theorem plainFields_cons {name : String} {value : Json} {rest : List (String × Json)} :
    PlainFields ((name, value) :: rest) ↔ Plain value ∧ PlainFields rest :=
  List.forall_mem_cons

@[simp] theorem plainFields_append {fields rest : List (String × Json)} :
    PlainFields (fields ++ rest) ↔ PlainFields fields ∧ PlainFields rest :=
  List.forall_mem_append

theorem plainFields_map {encode : α → Json} {entries : List (String × α)}
    (each : ∀ entry ∈ entries, Plain (encode entry.2)) :
    PlainFields (entries.map fun entry => (entry.1, encode entry.2)) :=
  List.forall_mem_map.mpr each

@[simp] theorem plainFields_fieldIfAny {name : String} {encode : α → Json} {items : List α} :
    PlainFields (fieldIfAny name encode items) ↔ ∀ item ∈ items, Plain (encode item) := by
  cases items <;> simp [fieldIfAny]

@[simp] theorem plainFields_fieldIfSome {name : String} {encode : α → Json} {value : Option α} :
    PlainFields (fieldIfSome name encode value) ↔ ∀ item ∈ value, Plain (encode item) := by
  cases value <;> simp [fieldIfSome]

@[simp] theorem plain_orNull {encode : α → Json} {value : Option α} :
    Plain (orNull encode value) ↔ ∀ item ∈ value, Plain (encode item) := by
  cases value <;> simp [orNull]

end Fields

theorem not_plain_broken : ¬Plain broken := fun plain => (plain _ .self).1 rfl

theorem not_plain_numeral (text : String) : ¬Plain (numeral text) :=
  fun plain => (plain _ .self).2 text rfl

/-! ## Without blanks -/

theorem blank_nil : Blank [] := by simp [Blank]

theorem compactField_eq (field : String × Json) :
    compactField field = quote field.1 ++ ":" ++ compact field.2 := by
  cases field
  rfl

mutual

theorem spelled_compact : (json : Json) → Plain json → Spelled json (compact json).toList
  | null, _ => .null
  | bool true, _ => .yes
  | bool false, _ => .no
  | natural value, _ => .natural value
  | numeral text, plain => absurd plain (not_plain_numeral text)
  | string value, _ => .string value
  | array [], _ => .noItems
  | array (item :: rest), plain => by
      have inside := spelledItems_compact (item :: rest) (plain_array.mp plain)
        (List.cons_ne_nil item rest)
      simpa [compact] using Spelled.array blank_nil inside
  | object [], _ => .noFields
  | object (field :: rest), plain => by
      have inside := spelledFields_compact (field :: rest) (plain_object.mp plain)
        (List.cons_ne_nil field rest)
      simpa [compact] using Spelled.object blank_nil inside
  | broken, plain => absurd plain not_plain_broken
termination_by structural json => json

theorem spelledItems_compact : (items : List Json) → (∀ item ∈ items, Plain item) → items ≠ [] →
    SpelledItems items ((compactItems items).toList ++ [']'])
  | [], _, filled => absurd rfl filled
  | [item], plain, _ => by
      have first := spelled_compact item (plain item List.mem_cons_self)
      simpa [compactItems] using SpelledItems.last first blank_nil
  | item :: next :: rest, plain, _ => by
      have first := spelled_compact item (plain item List.mem_cons_self)
      have later := spelledItems_compact (next :: rest)
        (fun item member => plain item (List.mem_cons_of_mem _ member))
        (List.cons_ne_nil next rest)
      simpa [compactItems] using SpelledItems.cons first blank_nil later
termination_by structural items => items

theorem spelledFields_compact : (fields : List (String × Json)) →
    PlainFields fields → fields ≠ [] →
    SpelledFields fields ((compactFields fields).toList ++ ['\x7d'])
  | [], _, filled => absurd rfl filled
  | [field], plain, _ => by
      have first := spelledField_compact field (plain field List.mem_cons_self)
      simpa [compactFields, compactField_eq] using
        SpelledFields.last field.1 blank_nil first blank_nil
  | field :: next :: rest, plain, _ => by
      have first := spelledField_compact field (plain field List.mem_cons_self)
      have later := spelledFields_compact (next :: rest)
        (fun field member => plain field (List.mem_cons_of_mem _ member))
        (List.cons_ne_nil next rest)
      simpa [compactFields, compactField_eq] using
        SpelledFields.cons field.1 blank_nil first blank_nil later
termination_by structural fields => fields

theorem spelledField_compact : (field : String × Json) → Plain field.2 →
    Spelled field.2 (compact field.2).toList
  | (_, value), plain => spelled_compact value plain
termination_by structural field => field

end

/-! ## One item a line -/

theorem blank_newLine (level : Nat) : Blank (newLine level).toList := by
  simp only [newLine, String.toList_append, String.toList_ofList]
  intro c member
  rcases List.mem_append.mp member with line | spaces
  · obtain rfl := List.mem_singleton.mp line
    rfl
  · obtain ⟨_, rfl⟩ := List.mem_replicate.mp spaces
    rfl

theorem indentedField_eq (level : Nat) (field : String × Json) :
    indentedField level field = quote field.1 ++ ": " ++ indented level field.2 := by
  cases field
  rfl

theorem blank_space : Blank [' '] := by simp [Blank, isSpace]

mutual

theorem spelled_indented : (json : Json) → Plain json → ∀ level : Nat,
    Spelled json (indented level json).toList
  | null, _, _ => .null
  | bool true, _, _ => .yes
  | bool false, _, _ => .no
  | natural value, _, _ => .natural value
  | numeral text, plain, _ => absurd plain (not_plain_numeral text)
  | string value, _, _ => .string value
  | array [], _, _ => by simpa [indented] using Spelled.noItems
  | array (item :: rest), plain, level => by
      have all := plain_array.mp plain
      have first := spelled_indented item (all item List.mem_cons_self) (level + 1)
      have inside := spelledItems_indented rest
        (fun item member => all item (List.mem_cons_of_mem _ member)) level first
      simpa [indented] using Spelled.array (blank_newLine (level + 1)) inside
  | object [], _, _ => by simpa [indented] using Spelled.noFields
  | object (field :: rest), plain, level => by
      have all := plain_object.mp plain
      have first := spelledField_indented field (all field List.mem_cons_self) (level + 1)
      have inside := spelledFields_indented rest
        (fun field member => all field (List.mem_cons_of_mem _ member)) level field.1 first
      simpa [indented, indentedField_eq] using Spelled.object (blank_newLine (level + 1)) inside
  | broken, plain, _ => absurd plain not_plain_broken
termination_by structural json => json

/-- The items behind one that is spelled already. -/
theorem spelledItems_indented : (rest : List Json) → (∀ item ∈ rest, Plain item) →
    ∀ (level : Nat) {item : Json} {text : List Char}, Spelled item text →
      SpelledItems (item :: rest)
        (text ++ ((indentedItems (level + 1) rest).toList ++ ((newLine level).toList ++ [']'])))
  | [], _, level, item, text, spelled => by
      simpa [indentedItems] using SpelledItems.last spelled (blank_newLine level)
  | next :: rest, plain, level, item, text, spelled => by
      have first := spelled_indented next (plain next List.mem_cons_self) (level + 1)
      have later := spelledItems_indented rest
        (fun item member => plain item (List.mem_cons_of_mem _ member)) level first
      simpa [indentedItems] using SpelledItems.cons spelled (blank_newLine (level + 1)) later
termination_by structural rest => rest

theorem spelledFields_indented : (rest : List (String × Json)) → PlainFields rest →
    ∀ (level : Nat) (name : String) {value : Json} {text : List Char}, Spelled value text →
      SpelledFields ((name, value) :: rest)
        ((quote name).toList ++ ':' :: ' ' :: (text ++
          ((indentedFields (level + 1) rest).toList ++ ((newLine level).toList ++ ['\x7d']))))
  | [], _, level, name, value, text, spelled => by
      simpa [indentedFields] using
        SpelledFields.last name blank_space spelled (blank_newLine level)
  | next :: rest, plain, level, name, value, text, spelled => by
      have first := spelledField_indented next (plain next List.mem_cons_self) (level + 1)
      have later := spelledFields_indented rest
        (fun field member => plain field (List.mem_cons_of_mem _ member)) level next.1 first
      simpa [indentedFields, indentedField_eq] using
        SpelledFields.cons name blank_space spelled (blank_newLine (level + 1)) later
termination_by structural rest => rest

theorem spelledField_indented : (field : String × Json) → Plain field.2 → ∀ level : Nat,
    Spelled field.2 (indented level field.2).toList
  | (_, value), plain, level => spelled_indented value plain level
termination_by structural field => field

end

/-- Plain values are read back from both layouts. -/
theorem read_compact {json : Json} (plain : Plain json) : read (compact json) = some json :=
  read_spelled (spelled_compact json plain)

theorem read_pretty {json : Json} (plain : Plain json) : read (pretty json) = some json :=
  read_spelled (spelled_indented json plain 0)

end ApiCompat.Json
