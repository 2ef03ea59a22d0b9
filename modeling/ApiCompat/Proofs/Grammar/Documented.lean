import ApiCompat.Proofs.Grammar.Marks
import ApiCompat.Proofs.Signature.TypeTakes

/-!
# The documented grammar

`Documented` says that trees are those of a text of the documented grammar:
marks stand behind types only, every list but that of the implemented types
has its commas, names that would be words of the grammar are avoided, nothing
is declared twice.  The reader looks ahead by one word and never goes back, so
it refuses some of these texts, and cuts others into types in another way;
`Clear` says where it does neither.
-/

set_option autoImplicit false

namespace ApiCompat.Grammar

open Signature

/-- The text splits into the words of the trees. -/
def Derives (text : String) (blocks : List (Located PackageTree)) : Prop :=
  ∃ lexemes, tokenize text = .ok lexemes ∧ Spells (fileWords blocks) lexemes

instance (word : Word) (lexeme : Lexeme) : Decidable (word.Matches lexeme) :=
  inferInstanceAs (Decidable (_ ∧ _ ∧ ∀ gap ∈ word.gap, lexeme.gap = gap))

theorem derives_iff (text : String) (blocks : List (Located PackageTree)) :
    Derives text blocks ↔ ∃ lexemes ∈ (tokenize text).toOption, Spells (fileWords blocks) lexemes := by
  rw [Derives]
  cases tokenize text <;> simp [Except.toOption]

instance (text : String) (blocks : List (Located PackageTree)) : Decidable (Derives text blocks) :=
  decidable_of_iff' _ (derives_iff text blocks)

/-! ## Names -/

def keywords : List String :=
  ["package", "class", "interface", "enum", "extends", "implements", "super", "throws", "default"]

def isReserved (text : String) : Bool :=
  (ModifierWord.ofWord? text).isSome || keywords.contains text

/-- A name of one part is no word of the grammar. -/
def Name.Free (name : Name) : Prop := name.later = [] → isReserved name.first = false

instance (name : Name) : Decidable name.Free := inferInstanceAs (Decidable (_ → _))

def annotationNames (annotations : List AnnotationTree) : List Name :=
  annotations.map AnnotationTree.name

def TypeTree.ownNames : TypeTree → List Name
  | named annotations name _ _ _ => name :: annotationNames annotations
  | wildcard annotations _ _ => annotationNames annotations

def frontNames (front : List FrontTree) : List Name :=
  front.filterMap fun tree =>
    match tree with
    | .annotated use _ => some use.name
    | .modifier _ => none

def singleNames (texts : List String) : List Name := texts.map fun text => { first := text }

def parameterNames (parameters : List ParameterTree) : List Name :=
  singleNames (parameters.filterMap ParameterTree.name)

/-- The names in a member but for those in its types. -/
def MemberTree.names : MemberTree → List Name
  | .constructor item =>
      item.name :: (frontNames item.front ++
        (singleNames (item.typeParams.map TypeParamTree.name) ++ parameterNames item.parameters))
  | .method item =>
      { first := item.name } :: (frontNames item.front ++
        (singleNames (item.typeParams.map TypeParamTree.name) ++ parameterNames item.parameters))
  | .field item => { first := item.name } :: frontNames item.front

def ClassTree.names (cls : ClassTree) : List Name :=
  cls.name :: (frontNames cls.front ++ (singleNames (cls.typeParams.map TypeParamTree.name) ++
    ((cls.occurrences.flatMap fun occurrence => occurrence.type.ownNames) ++
      cls.members.flatMap fun found => found.item.names)))

/-! ## Marks -/

/-- All marks say the same. -/
def Agree (marks : List Nullness) : Prop := ∀ mark ∈ marks, ∀ other ∈ marks, mark = other

instance (marks : List Nullness) : Decidable (Agree marks) :=
  inferInstanceAs (Decidable (∀ mark ∈ marks, ∀ other ∈ marks, mark = other))

theorem Agree.subset {marks others : List Nullness} (agree : Agree marks) (part : others ⊆ marks) :
    Agree others :=
  fun mark member other member' => agree mark (part member) other (part member')

theorem agree_toList (mark : Option Nullness) : Agree mark.toList := by
  cases mark <;> simp [Agree]

/-- A mark that is declared already may be found once more. -/
theorem Agree.declared {declared : Option Nullness} {mark : Nullness} {later : List Nullness}
    (same : ∀ other ∈ declared, other = mark) (agree : Agree (mark :: later)) :
    Agree (declared.toList ++ mark :: later) := by
  refine agree.subset (List.append_subset.mpr ⟨?_, List.Subset.refl _⟩)
  intro other member
  obtain rfl := same other (Option.mem_toList.mp member)
  exact List.mem_cons_self

theorem agree_options {declared suffix : Option Nullness}
    (same : ∀ nullness ∈ declared, ∀ marked ∈ suffix, nullness = marked) :
    Agree (declared.toList ++ suffix.toList) := by
  cases suffix with
  | none => simpa using agree_toList declared
  | some marked =>
      exact Agree.declared (fun nullness member => same nullness member marked rfl)
        (agree_toList (some marked))

/-- Agreeing marks of which the first one agrees with further marks agree with these. -/
theorem Agree.append {first later : List Nullness} (agree : Agree first)
    (joined : Agree (first.head?.toList ++ later)) : Agree (first ++ later) := by
  cases first with
  | nil => exact joined
  | cons mark first =>
      have same : ∀ other ∈ mark :: first ++ later, other = mark := by
        intro other member
        rcases List.mem_append.mp member with inFirst | inLater
        · exact agree other inFirst mark List.mem_cons_self
        · exact joined other (List.mem_append_right _ inLater) mark (by simp)
      exact fun mark member other member' => (same mark member).trans (same other member').symm

namespace TypeTree

def ending : TypeTree → Ending
  | named _ _ _ _ ending => ending
  | wildcard _ _ ending => ending

/-- The marks that a type carries, also a wildcard. -/
def carried (declared : Option Nullness) (type : TypeTree) : List Nullness :=
  declared.toList ++ (type.annotations.filterMap AnnotationTree.nullness? ++
    (type.ending.mark.map Mark.nullness).toList)

/-- No mark stands before the brackets of an array. -/
def MarkedBehind : TypeTree → Prop
  | named _ _ _ inner _ => inner = none
  | wildcard _ _ _ => True

instance : (type : TypeTree) → Decidable type.MarkedBehind
  | named _ _ _ inner _ => inferInstanceAs (Decidable (inner = none))
  | wildcard _ _ _ => .isTrue trivial

end TypeTree

def frontMarks (front : List FrontTree) : List Nullness := front.filterMap FrontTree.nullness?

@[mk_iff]
structure Occurrence.Documented (occurrence : Occurrence) : Prop where
  behind : occurrence.type.MarkedBehind
  agree : Agree (occurrence.type.carried occurrence.declared)

instance (occurrence : Occurrence) : Decidable occurrence.Documented :=
  decidable_of_iff' _ (Occurrence.documented_iff occurrence)

/-! ## Documented texts -/

/-- The marks in front of a member belong to its type; a constant of an enum has no value. -/
def MemberTree.Documented : MemberTree → Prop
  | .constructor _ => True
  | .method item => Agree (frontMarks item.front)
  | .field item =>
      Agree (frontMarks item.front) ∧ (item.isEnumConstant = true → item.value = none)

instance : (member : MemberTree) → Decidable member.Documented
  | .constructor _ => .isTrue trivial
  | .method item => inferInstanceAs (Decidable (Agree (frontMarks item.front)))
  | .field item => inferInstanceAs
      (Decidable (Agree (frontMarks item.front) ∧ (item.isEnumConstant = true → item.value = none)))

/-- One type is extended. -/
def ExtendsTree.Single : ExtendsTree → Prop
  | superclass _ => True
  | interfaces list => list.later = [] ∧ list.trailing = false

instance : (extension : ExtendsTree) → Decidable extension.Single
  | .superclass _ => .isTrue trivial
  | .interfaces list => inferInstanceAs (Decidable (list.later = [] ∧ list.trailing = false))

/-- No comma stands behind the last type that is implemented. -/
@[mk_iff]
structure SupertypesTree.Documented (supertypes : SupertypesTree) : Prop where
  extended : ∀ extension ∈ supertypes.extension, extension.Single
  implemented : ∀ list ∈ supertypes.implemented, list.trailing = false

instance (supertypes : SupertypesTree) : Decidable supertypes.Documented :=
  decidable_of_iff' _ (SupertypesTree.documented_iff supertypes)

@[mk_iff]
structure ClassTree.Documented (cls : ClassTree) : Prop where
  names : ∀ name ∈ cls.names, name.Free
  types : ∀ occurrence ∈ cls.occurrences, occurrence.Documented
  supertypes : cls.supertypes.Documented
  members : ∀ found ∈ cls.members, found.item.Documented
  distinct : (cls.members.map fun found => found.item.key).Nodup

instance (cls : ClassTree) : Decidable cls.Documented :=
  decidable_of_iff' _ (ClassTree.documented_iff cls)

/-- Each class with its package. -/
def declaredNames (blocks : List (Located PackageTree)) : List (String × String) :=
  blocks.flatMap fun block =>
    block.item.classes.map fun cls => (block.item.name.text, cls.item.name.text)

@[mk_iff]
structure Documented (blocks : List (Located PackageTree)) : Prop where
  names : ∀ block ∈ blocks, block.item.name.Free
  classes : ∀ block ∈ blocks, ∀ cls ∈ block.item.classes, cls.item.Documented
  distinct : (declaredNames blocks).Nodup

instance (blocks : List (Located PackageTree)) : Decidable (Documented blocks) :=
  decidable_of_iff' _ (documented_iff blocks)

/-! ## Where the reader finds its way -/

/-- Nothing is taken for a part of the type behind a mark that stands behind brackets or dots. -/
def Ending.Closed (ending : Ending) : Prop :=
  ending.mark.isSome = true ∧ ¬(ending.dims = 0 ∧ ending.varargs = false)

instance (ending : Ending) : Decidable ending.Closed := inferInstanceAs (Decidable (_ ∧ ¬_))

namespace TypeTree

mutual

/-- The words do not continue the type: no mark follows a name, and no bound a wildcard. -/
def EndsBefore (back : List Word) : TypeTree → Prop
  | named _ _ _ _ ending => ending.Closed ∨ EndsType back
  | wildcard _ bound _ => BoundEndsBefore back bound
termination_by structural type => type

def BoundEndsBefore (back : List Word) : Bound TypeTree → Prop
  | .unbounded => EndsWildcard back
  | .upper type => EndsBefore back type
  | .lower type => EndsBefore back type
termination_by structural bound => bound

end

instance (text : String) (words : List Word) : Decidable (NotNextWord text words) :=
  inferInstanceAs (Decidable (∀ word ∈ words.head?, ¬(_ ∧ _)))

mutual

instance decidableEndsBefore (back : List Word) : (type : TypeTree) → Decidable (type.EndsBefore back)
  | named _ _ _ _ ending =>
      inferInstanceAs (Decidable (ending.Closed ∨ ∀ word ∈ back.head?, _ = true))
  | wildcard _ bound _ => decidableBoundEndsBefore back bound
termination_by structural type => type

instance decidableBoundEndsBefore (back : List Word) :
    (bound : Bound TypeTree) → Decidable (BoundEndsBefore back bound)
  | .unbounded => inferInstanceAs (Decidable (NotNextWord "extends" back ∧ NotNextWord "super" back))
  | .upper type => decidableEndsBefore back type
  | .lower type => decidableEndsBefore back type
termination_by structural bound => bound

end

/-- A wildcard has neither brackets nor a mark of its own. -/
def BareWildcard : TypeTree → Prop
  | named _ _ _ _ _ => True
  | wildcard _ _ ending => ending = {}

instance : (type : TypeTree) → Decidable type.BareWildcard
  | named _ _ _ _ _ => .isTrue trivial
  | wildcard _ _ ending => inferInstanceAs (Decidable (ending = {}))

/-- A type that stands behind modifiers does not begin with a modifier word, unless
an annotation before it has ended the modifiers. -/
def ClearStart : TypeTree → Prop
  | named annotations name _ _ _ =>
      (∀ use ∈ annotations, use.name.first ≠ "interface") →
        ModifierWord.ofWord? name.first = none
  | wildcard _ _ _ => True

instance : (type : TypeTree) → Decidable type.ClearStart
  | named annotations _ _ _ _ => inferInstanceAs (Decidable
      ((∀ use ∈ annotations, use.name.first ≠ "interface") → _ = none))
  | wildcard _ _ _ => .isTrue trivial

end TypeTree

/-- The annotation does not begin like an annotation type. -/
def FrontTree.Clear : FrontTree → Prop
  | .annotated use _ => use.name.first ≠ "interface"
  | .modifier _ => True

instance : (tree : FrontTree) → Decidable tree.Clear
  | .annotated use _ => inferInstanceAs (Decidable (use.name.first ≠ "interface"))
  | .modifier _ => .isTrue trivial

def MemberTree.ClearStart : MemberTree → Prop
  | .constructor item => item.typeParams = [] → ModifierWord.ofWord? item.name.first = none
  | .method item => item.typeParams = [] → item.returnType.ClearStart
  | .field item => item.type.ClearStart

instance : (member : MemberTree) → Decidable member.ClearStart
  | .constructor item => inferInstanceAs (Decidable (item.typeParams = [] → _ = none))
  | .method item => inferInstanceAs (Decidable (item.typeParams = [] → item.returnType.ClearStart))
  | .field item => inferInstanceAs (Decidable item.type.ClearStart)

def MemberTree.front : MemberTree → List FrontTree
  | .constructor item => item.front
  | .method item => item.front
  | .field item => item.front

/-- The marks in front of a constructor agree too, though they belong to no type. -/
@[mk_iff]
structure MemberTree.Clear (member : MemberTree) : Prop where
  front : ∀ tree ∈ member.front, tree.Clear
  agree : Agree (frontMarks member.front)
  start : member.ClearStart

instance (member : MemberTree) : Decidable member.Clear :=
  decidable_of_iff' _ (MemberTree.clear_iff member)

/-- A type behind another one does not begin with `implements`, and does not continue the type
before it where the comma is left out.  A text in which it does may be read all the same, but as
other types: of `A ? extends B` the reader makes `A?`, `extends` and `B`. -/
def ClearList (before : TypeTree) : List ListedType → Prop
  | [] => True
  | listed :: later =>
      NotNextWord "implements" listed.type.words ∧
        (listed.comma = false → before.EndsBefore listed.type.words) ∧
          ClearList listed.type later

instance decidableClearList (before : TypeTree) :
    (later : List ListedType) → Decidable (ClearList before later)
  | [] => .isTrue trivial
  | listed :: later =>
      have := decidableClearList listed.type later
      inferInstanceAs (Decidable (_ ∧ (listed.comma = false → _) ∧ ClearList listed.type later))

@[mk_iff]
structure ClassTree.Clear (cls : ClassTree) : Prop where
  front : ∀ tree ∈ cls.front, tree.Clear
  agree : Agree (frontMarks cls.front)
  types : ∀ occurrence ∈ cls.occurrences, occurrence.type.BareWildcard
  listed : ∀ list ∈ cls.supertypes.implemented, ClearList list.first list.later
  members : ∀ found ∈ cls.members, found.item.Clear

instance (cls : ClassTree) : Decidable cls.Clear := decidable_of_iff' _ (ClassTree.clear_iff cls)

def Clear (blocks : List (Located PackageTree)) : Prop :=
  ∀ block ∈ blocks, ∀ cls ∈ block.item.classes, cls.item.Clear

instance (blocks : List (Located PackageTree)) : Decidable (Clear blocks) :=
  inferInstanceAs (Decidable (∀ block ∈ blocks, ∀ cls ∈ block.item.classes, cls.item.Clear))

end ApiCompat.Grammar
