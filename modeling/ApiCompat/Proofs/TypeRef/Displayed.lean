import ApiCompat.Proofs.Signature.Formed
import ApiCompat.Proofs.Token.Spelling
import ApiCompat.Proofs.TypeRef.Shape

/-!
# Types are known by how they are written

What `display` writes of a type can be read in one way only, whatever stands
behind it that may stand behind a type (`display_cancel`): a name ends where no
identifier goes on, arguments end at their closing bracket, and a wildcard has
nothing behind its bound.  So types are displayed alike exactly when they have
the same shape (`display_eq_iff`).
-/

set_option autoImplicit false

namespace ApiCompat

/-! ## Names -/

/-- What may stand behind a dotted name: it continues neither the last word nor the name. -/
def EndsName (text : List Char) : Prop :=
  Breaks text ∧ ∀ later, text = '.' :: later → ∀ c ∈ later.head?, isIdentStart c = false

theorem isIdentifier_chars {word : String} (valid : isIdentifier word = true) :
    ∃ c rest, word.toList = c :: rest ∧ isIdentStart c = true ∧
      ∀ c' ∈ word.toList, isIdentPart c' = true := by
  unfold isIdentifier at valid
  cases shape : word.toList with
  | nil => simp [shape] at valid
  | cons c rest =>
      simp only [shape, Bool.and_eq_true, List.all_eq_true] at valid
      refine ⟨c, rest, rfl, valid.1, fun c' member => ?_⟩
      rcases List.mem_cons.mp member with rfl | later
      · simp [isIdentPart, valid.1]
      · exact valid.2 c' later

theorem takeWhile_identifier {word : String} (valid : isIdentifier word = true) {text : List Char}
    (breaks : Breaks text) : (word.toList ++ text).takeWhile isIdentPart = word.toList := by
  obtain ⟨_, _, _, _, parts⟩ := isIdentifier_chars valid
  rw [List.takeWhile_append_of_pos parts]
  cases text with
  | nil => simp
  | cons c rest => simp [breaks c rfl]

/-- An identifier ends where no identifier goes on. -/
theorem identifier_cancel {word word' : String} (valid : isIdentifier word = true)
    (valid' : isIdentifier word' = true) {text text' : List Char} (breaks : Breaks text)
    (breaks' : Breaks text') (same : word.toList ++ text = word'.toList ++ text') :
    word = word' ∧ text = text' := by
  have words : word.toList = word'.toList := by
    rw [← takeWhile_identifier valid breaks, same, takeWhile_identifier valid' breaks']
  rw [words] at same
  exact ⟨String.toList_inj.mp words, List.append_cancel_left same⟩

def dottedWords (words : List String) : List Char := words.flatMap fun word => '.' :: word.toList

theorem breaks_dottedWords (words : List String) {text : List Char} (breaks : Breaks text) :
    Breaks (dottedWords words ++ text) := by
  cases words with
  | nil => exact breaks
  | cons word words => exact breaks_cons (by decide) _

theorem not_endsName_dotted {word : String} (valid : isIdentifier word = true)
    (text : List Char) : ¬EndsName ('.' :: (word.toList ++ text)) := by
  rintro ⟨_, ends⟩
  obtain ⟨c, rest, shape, start, _⟩ := isIdentifier_chars valid
  have stops := ends _ rfl c (by simp [shape])
  rw [start] at stops
  cases stops

theorem dottedWords_cancel {words words' : List String} {text text' : List Char}
    (valid : ∀ word ∈ words, isIdentifier word = true)
    (valid' : ∀ word ∈ words', isIdentifier word = true) (ends : EndsName text)
    (ends' : EndsName text') (same : dottedWords words ++ text = dottedWords words' ++ text') :
    words = words' ∧ text = text' := by
  induction words generalizing words' with
  | nil =>
      cases words' with
      | nil => exact ⟨rfl, same⟩
      | cons word' words' =>
          obtain rfl : text = '.' :: (word'.toList ++ (dottedWords words' ++ text')) := by
            simpa [dottedWords] using same
          exact absurd ends (not_endsName_dotted (valid' word' List.mem_cons_self) _)
  | cons word words ih =>
      cases words' with
      | nil =>
          obtain rfl : '.' :: (word.toList ++ (dottedWords words ++ text)) = text' := by
            simpa [dottedWords] using same
          exact absurd ends' (not_endsName_dotted (valid word List.mem_cons_self) _)
      | cons word' words' =>
          have behind : word.toList ++ (dottedWords words ++ text) =
              word'.toList ++ (dottedWords words' ++ text') := by
            simpa [dottedWords] using same
          obtain ⟨rfl, later⟩ := identifier_cancel (valid word List.mem_cons_self)
            (valid' word' List.mem_cons_self) (breaks_dottedWords words ends.1)
            (breaks_dottedWords words' ends'.1) behind
          obtain ⟨rfl, rest⟩ := ih (fun next member => valid next (List.mem_cons_of_mem _ member))
            (fun next member => valid' next (List.mem_cons_of_mem _ member)) later
          exact ⟨rfl, rest⟩

variable {allowed : String → Prop}

theorem DottedName.words (idents : Identifiers allowed) {name : String}
    (dotted : DottedName allowed name) :
    ∃ word words, isIdentifier word = true ∧ (∀ next ∈ words, isIdentifier next = true) ∧
      nameParts name = word :: words ∧ name.toList = word.toList ++ dottedWords words := by
  obtain ⟨words, parts⟩ := nameParts_shape name
  have valid : ∀ word ∈ nameParts name, isIdentifier word = true :=
    fun word member => idents word (dotted word member)
  rw [parts] at valid
  refine ⟨_, words, valid _ List.mem_cons_self,
    fun next member => valid next (List.mem_cons_of_mem _ member), parts, ?_⟩
  have whole := congrArg String.toList (joinWith_nameParts name)
  rw [parts, joinWith, foldl_join_toList] at whole
  exact whole.symm

/-- A dotted name ends where neither it nor its last word goes on. -/
theorem DottedName.cancel (idents : Identifiers allowed) {name name' : String}
    (dotted : DottedName allowed name) (dotted' : DottedName allowed name')
    {text text' : List Char} (ends : EndsName text) (ends' : EndsName text')
    (same : name.toList ++ text = name'.toList ++ text') : name = name' ∧ text = text' := by
  obtain ⟨word, words, valid, later, parts, shape⟩ := dotted.words idents
  obtain ⟨word', words', valid', later', parts', shape'⟩ := dotted'.words idents
  rw [shape, shape', List.append_assoc, List.append_assoc] at same
  obtain ⟨rfl, behind⟩ := identifier_cancel valid valid' (breaks_dottedWords words ends.1)
    (breaks_dottedWords words' ends'.1) same
  obtain ⟨rfl, rest⟩ := dottedWords_cancel later later' ends ends' behind
  refine ⟨?_, rest⟩
  rw [← joinWith_nameParts name, ← joinWith_nameParts name', parts, parts']

theorem DottedName.head (idents : Identifiers allowed) {name : String}
    (dotted : DottedName allowed name) : ∃ c rest, name.toList = c :: rest ∧
      isIdentStart c = true := by
  obtain ⟨word, words, valid, _, _, shape⟩ := dotted.words idents
  obtain ⟨c, rest, chars, start, _⟩ := isIdentifier_chars valid
  exact ⟨c, rest ++ dottedWords words, by simp [shape, chars], start⟩

namespace TypeRef

/-! ## What stands behind a type -/

/-- What may stand behind a type that is written inside another one or alone. -/
def EndsType (text : List Char) : Prop := ∀ c ∈ text.head?, c = ',' ∨ c = '>'

theorem EndsType.cons_ne {text : List Char} (ends : EndsType text) {c : Char}
    (other : c ≠ ',' ∧ c ≠ '>') (later : List Char) : text ≠ c :: later := by
  rintro rfl
  rcases ends c rfl with rfl | rfl
  · exact other.1 rfl
  · exact other.2 rfl

theorem EndsType.endsName {text : List Char} (ends : EndsType text) : EndsName text := by
  refine ⟨fun c member => ?_, fun later shape => absurd shape (ends.cons_ne (by decide) later)⟩
  rcases ends c member with rfl | rfl <;> decide

theorem endsType_nil : EndsType [] := by
  intro c member
  cases member

theorem endsType_displayMore (types : List TypeRef) (text : List Char) :
    EndsType ((displayMore types).toList ++ text) := by
  intro c member
  cases types with
  | nil =>
      right
      simpa [displayMore, eq_comm] using member
  | cons type types =>
      left
      simpa [displayMore, eq_comm] using member

/-! ## Array brackets and the varargs mark -/

theorem suffixes_zero (varargs : Bool) :
    (suffixes 0 varargs).toList = if varargs then ['.', '.', '.'] else [] := by
  cases varargs <;> rfl

theorem suffixes_succ (dims : Nat) (varargs : Bool) :
    (suffixes (dims + 1) varargs).toList = '[' :: ']' :: (suffixes dims varargs).toList := by
  simp [suffixes, List.replicate_succ, String.join_cons]

theorem suffixes_cancel {dims dims' : Nat} {varargs varargs' : Bool} {text text' : List Char}
    (ends : EndsType text) (ends' : EndsType text')
    (same : (suffixes dims varargs).toList ++ text = (suffixes dims' varargs').toList ++ text') :
    dims = dims' ∧ varargs = varargs' ∧ text = text' := by
  induction dims generalizing dims' with
  | zero =>
      cases dims' with
      | zero =>
          rw [suffixes_zero, suffixes_zero] at same
          cases varargs <;> cases varargs'
          case false.false => exact ⟨rfl, rfl, same⟩
          case false.true => exact absurd same (ends.cons_ne (by decide) _)
          case true.false => exact absurd same.symm (ends'.cons_ne (by decide) _)
          case true.true => exact ⟨rfl, rfl, List.append_cancel_left same⟩
      | succ dims' =>
          rw [suffixes_zero, suffixes_succ] at same
          cases varargs
          case false => exact absurd same (ends.cons_ne (by decide) _)
          case true => cases (List.cons.inj same).1
  | succ dims ih =>
      cases dims' with
      | zero =>
          rw [suffixes_zero, suffixes_succ] at same
          cases varargs'
          case false => exact absurd same.symm (ends'.cons_ne (by decide) _)
          case true => cases (List.cons.inj same).1
      | succ dims' =>
          rw [suffixes_succ, suffixes_succ] at same
          obtain ⟨rfl, rest⟩ := ih (List.cons.inj (List.cons.inj same).2).2
          exact ⟨rfl, rest⟩

/-- What stands behind the arguments of a type, or behind its name if it has none. -/
structure EndsArgs (text : List Char) : Prop where
  endsName : EndsName text
  opens : ∀ later, text ≠ '<' :: later

theorem endsArgs_suffixes (dims : Nat) (varargs : Bool) {text : List Char} (ends : EndsType text) :
    EndsArgs ((suffixes dims varargs).toList ++ text) := by
  cases dims with
  | succ dims =>
      rw [suffixes_succ]
      refine ⟨⟨breaks_cons (by decide) _, fun later shape => ?_⟩, fun later shape => ?_⟩
      · cases (List.cons.inj shape).1
      · cases (List.cons.inj shape).1
  | zero =>
      rw [suffixes_zero]
      cases varargs with
      | false => exact ⟨ends.endsName, ends.cons_ne (by decide)⟩
      | true =>
          refine ⟨⟨breaks_cons (by decide) _, fun later shape c member => ?_⟩,
            fun later shape => ?_⟩
          · obtain rfl := (List.cons.inj shape).2
            obtain rfl := Option.some.inj member
            decide
          · cases (List.cons.inj shape).1

theorem endsName_displayArgs (types : List TypeRef) {text : List Char} (ends : EndsArgs text) :
    EndsName ((displayArgs types).toList ++ text) := by
  cases types with
  | nil => exact ends.endsName
  | cons type types =>
      rw [displayArgs, String.toList_append, String.toList_append]
      refine ⟨breaks_cons (by decide) _, fun later shape => ?_⟩
      cases (List.cons.inj shape).1

/-! ## Types -/

theorem toList_display_named (name : String) (args : List TypeRef) (dims : Nat) (varargs : Bool)
    (nullness : Nullness) (text : List Char) :
    (display ⟨name, args, .unbounded, dims, varargs, nullness⟩).toList ++ text =
      name.toList ++ ((displayArgs args).toList ++ ((suffixes dims varargs).toList ++ text)) := by
  simp [display, displayBound, List.append_assoc]

theorem toList_display_wildcard (bound : Bound TypeRef) (text : List Char) :
    (display ⟨"?", [], bound, 0, false, .unspecified⟩).toList ++ text =
      '?' :: ((displayBound bound).toList ++ text) := by
  simp [display, displayArgs, suffixes]

/-- Names and wildcards are told apart by how they begin. -/
theorem named_ne_wildcard (idents : Identifiers allowed) {name : String}
    (dotted : DottedName allowed name) (text text' : List Char) :
    name.toList ++ text ≠ '?' :: text' := by
  intro same
  obtain ⟨c, rest, shape, start⟩ := dotted.head idents
  rw [shape, List.cons_append] at same
  obtain ⟨rfl, _⟩ := List.cons.inj same
  exact absurd start (by decide)

mutual

/-- A type ends where nothing goes on that is part of it. -/
theorem display_cancel (idents : Identifiers allowed) : (type other : TypeRef) →
    type.Formed allowed → other.Formed allowed → (text text' : List Char) →
    EndsType text → EndsType text' →
    (display type).toList ++ text = (display other).toList ++ text' →
    shape type = shape other ∧ text = text'
  | ⟨name, args, bound, dims, varargs, _⟩, ⟨name', args', bound', dims', varargs', _⟩,
      formed, formed', text, text', ends, ends', same => by
      rcases formed with ⟨rfl, rfl, rfl, rfl, rfl, inBound⟩ | ⟨dotted, rfl, inArgs⟩ <;>
        rcases formed' with ⟨rfl, rfl, rfl, rfl, rfl, inBound'⟩ | ⟨dotted', rfl, inArgs'⟩
      · rw [toList_display_wildcard, toList_display_wildcard] at same
        obtain ⟨bounds, rest⟩ := displayBound_cancel idents bound bound' inBound inBound' text text'
          ends ends' (List.cons.inj same).2
        exact ⟨by simp only [shape, bounds], rest⟩
      · rw [toList_display_wildcard, toList_display_named] at same
        exact absurd same.symm (named_ne_wildcard idents dotted' _ _)
      · rw [toList_display_wildcard, toList_display_named] at same
        exact absurd same (named_ne_wildcard idents dotted _ _)
      · rw [toList_display_named, toList_display_named] at same
        have behind := endsArgs_suffixes dims varargs ends
        have behind' := endsArgs_suffixes dims' varargs' ends'
        obtain ⟨rfl, later⟩ := dotted.cancel idents dotted' (endsName_displayArgs args behind)
          (endsName_displayArgs args' behind') same
        obtain ⟨types, last⟩ := displayArgs_cancel idents args args' inArgs inArgs' _ _ behind.opens
          behind'.opens later
        obtain ⟨rfl, rfl, rest⟩ := suffixes_cancel ends ends' last
        exact ⟨by simp only [shape, types], rest⟩
termination_by structural type => type

theorem displayBound_cancel (idents : Identifiers allowed) : (bound other : Bound TypeRef) →
    FormedBound allowed bound → FormedBound allowed other → (text text' : List Char) →
    EndsType text → EndsType text' →
    (displayBound bound).toList ++ text = (displayBound other).toList ++ text' →
    shapeBound bound = shapeBound other ∧ text = text'
  | .unbounded, .unbounded, _, _, _, _, _, _, same => ⟨rfl, same⟩
  | .unbounded, .upper type, _, _, _, _, ends, _, same => by
      simp only [displayBound, String.toList_append] at same
      exact absurd same (ends.cons_ne (by decide) _)
  | .unbounded, .lower type, _, _, _, _, ends, _, same => by
      simp only [displayBound, String.toList_append] at same
      exact absurd same (ends.cons_ne (by decide) _)
  | .upper type, .unbounded, _, _, _, _, _, ends', same => by
      simp only [displayBound, String.toList_append] at same
      exact absurd same.symm (ends'.cons_ne (by decide) _)
  | .lower type, .unbounded, _, _, _, _, _, ends', same => by
      simp only [displayBound, String.toList_append] at same
      exact absurd same.symm (ends'.cons_ne (by decide) _)
  | .upper type, .lower type', _, _, _, _, _, _, same => by
      simp [displayBound] at same
  | .lower type, .upper type', _, _, _, _, _, _, same => by
      simp [displayBound] at same
  | .upper type, .upper type', formed, formed', text, text', ends, ends', same => by
      simp only [displayBound, String.toList_append, List.append_assoc] at same
      obtain ⟨types, rest⟩ := display_cancel idents type type' formed formed' text text' ends ends'
        (List.append_cancel_left same)
      exact ⟨by simp only [shapeBound, types], rest⟩
  | .lower type, .lower type', formed, formed', text, text', ends, ends', same => by
      simp only [displayBound, String.toList_append, List.append_assoc] at same
      obtain ⟨types, rest⟩ := display_cancel idents type type' formed formed' text text' ends ends'
        (List.append_cancel_left same)
      exact ⟨by simp only [shapeBound, types], rest⟩
termination_by structural bound => bound

theorem displayArgs_cancel (idents : Identifiers allowed) : (types others : List TypeRef) →
    FormedAll allowed types → FormedAll allowed others → (text text' : List Char) →
    (∀ later, text ≠ '<' :: later) → (∀ later, text' ≠ '<' :: later) →
    (displayArgs types).toList ++ text = (displayArgs others).toList ++ text' →
    shapes types = shapes others ∧ text = text'
  | [], [], _, _, _, _, _, _, same => ⟨rfl, same⟩
  | [], _ :: _, _, _, _, _, opens, _, same => by
      simp only [displayArgs, String.toList_append] at same
      exact absurd same (opens _)
  | _ :: _, [], _, _, _, _, _, opens', same => by
      simp only [displayArgs, String.toList_append] at same
      exact absurd same.symm (opens' _)
  | type :: rest, type' :: rest', formed, formed', text, text', _, _, same => by
      simp only [displayArgs, String.toList_append, List.append_assoc] at same
      obtain ⟨first, behind⟩ := display_cancel idents type type' formed.1 formed'.1 _ _
        (endsType_displayMore rest text) (endsType_displayMore rest' text')
        (List.append_cancel_left same)
      obtain ⟨later, last⟩ := displayMore_cancel idents rest rest' formed.2 formed'.2 text text'
        behind
      exact ⟨by simp only [shapes, first, later], last⟩
termination_by structural types => types

theorem displayMore_cancel (idents : Identifiers allowed) : (types others : List TypeRef) →
    FormedAll allowed types → FormedAll allowed others → (text text' : List Char) →
    (displayMore types).toList ++ text = (displayMore others).toList ++ text' →
    shapes types = shapes others ∧ text = text'
  | [], [], _, _, _, _, same => ⟨rfl, List.append_cancel_left same⟩
  | [], _ :: _, _, _, _, _, same => by
      simp [displayMore] at same
  | _ :: _, [], _, _, _, _, same => by
      simp [displayMore] at same
  | type :: rest, type' :: rest', formed, formed', text, text', same => by
      simp only [displayMore, String.toList_append, List.append_assoc] at same
      obtain ⟨first, behind⟩ := display_cancel idents type type' formed.1 formed'.1 _ _
        (endsType_displayMore rest text) (endsType_displayMore rest' text')
        (List.append_cancel_left same)
      obtain ⟨later, last⟩ := displayMore_cancel idents rest rest' formed.2 formed'.2 text text'
        behind
      exact ⟨by simp only [shapes, first, later], last⟩
termination_by structural types => types

end

/-- Types are displayed alike exactly when they have the same shape. -/
theorem display_eq_iff (idents : Identifiers allowed) {type other : TypeRef}
    (formed : type.Formed allowed) (formed' : other.Formed allowed) :
    type.display = other.display ↔ type.shape = other.shape := by
  constructor
  · intro same
    exact (display_cancel idents type other formed formed' [] [] endsType_nil endsType_nil
      (by rw [same])).1
  · intro same
    rw [← display_shape type, same, display_shape]

/-- Types of one shape have one erasure. -/
theorem erasure_eq_of_shape {type other : TypeRef} (same : type.shape = other.shape) :
    type.erasure = other.erasure := by
  obtain ⟨name, args, bound, dims, varargs, nullness⟩ := type
  obtain ⟨name', args', bound', dims', varargs', nullness'⟩ := other
  simp only [shape, mk.injEq] at same
  obtain ⟨rfl, _, _, rfl, rfl, _⟩ := same
  rfl

end TypeRef

end ApiCompat
