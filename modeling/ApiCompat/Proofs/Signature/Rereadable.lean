import ApiCompat.Api.Basic
import ApiCompat.Proofs.Name.Parts

/-!
# Declarations that read as something else

Some declarations can be stated but not restated: an own type whose name
begins with a modifier word stands where modifiers are read, and an interface
whose name begins with `implements` stands where that word ends the list.  A
description without them is `Rereadable`.

Other clashes never come from a text, because its reader would have seen the
clashing word first.  A description without those is `Clear`.
-/

set_option autoImplicit false

namespace ApiCompat

namespace TypeRef

mutual

def endsOpen : TypeRef → Bool
  | ⟨name, _, bound, _, _, _⟩ => name == "?" && boundEndsOpen bound
termination_by structural type => type

def boundEndsOpen : Bound TypeRef → Bool
  | .unbounded => true
  | .upper type => endsOpen type
  | .lower type => endsOpen type
termination_by structural bound => bound

end

def beginsWithModifier (type : TypeRef) : Bool :=
  (ModifierWord.ofWord? (firstPart type.name)).isSome

def beginsWithImplements (mode : NullMode) (type : TypeRef) : Bool :=
  firstPart type.name == "implements" && (mode == .nullAware || type.nullness == .unspecified)

end TypeRef

/-! ## Rereadable descriptions -/

def Method.Rereadable (item : Method) : Prop :=
  item.typeParams = [] → item.returnType.beginsWithModifier = false

def Field.Rereadable (item : Field) : Prop := item.type.beginsWithModifier = false

def Member.Rereadable : Member → Prop
  | .constructor _ => True
  | .method item => item.Rereadable
  | .field item => item.Rereadable

/-- No interface but the first begins with `implements`. -/
def ClassDecl.InterfacesRereadable (mode : NullMode) (cls : ClassDecl) : Prop :=
  ∀ type ∈ cls.interfaces.toList.tail, type.beginsWithImplements mode = false

structure ClassDecl.Rereadable (mode : NullMode) (cls : ClassDecl) : Prop where
  interfaces : cls.InterfacesRereadable mode
  members : ∀ member ∈ cls.members.values, member.item.Rereadable

def Package.Rereadable (mode : NullMode) (package : Package) : Prop :=
  ∀ cls ∈ package.classes.values, cls.item.Rereadable mode

def Api.Rereadable (api : Api) : Prop :=
  ∀ package ∈ api.packages.values, package.item.Rereadable api.nullMode

instance (item : Method) : Decidable item.Rereadable :=
  inferInstanceAs (Decidable (item.typeParams = [] → item.returnType.beginsWithModifier = false))

instance (item : Field) : Decidable item.Rereadable :=
  inferInstanceAs (Decidable (item.type.beginsWithModifier = false))

instance : (member : Member) → Decidable member.Rereadable
  | .constructor _ => .isTrue trivial
  | .method item => inferInstanceAs (Decidable item.Rereadable)
  | .field item => inferInstanceAs (Decidable item.Rereadable)

instance (mode : NullMode) (cls : ClassDecl) : Decidable (cls.InterfacesRereadable mode) :=
  inferInstanceAs (Decidable (∀ type ∈ cls.interfaces.toList.tail,
    type.beginsWithImplements mode = false))

instance (mode : NullMode) (cls : ClassDecl) : Decidable (cls.Rereadable mode) :=
  decidable_of_iff (cls.InterfacesRereadable mode ∧
    ∀ member ∈ cls.members.values, member.item.Rereadable)
    ⟨fun both => ⟨both.1, both.2⟩, fun good => ⟨good.interfaces, good.members⟩⟩

instance (mode : NullMode) (package : Package) : Decidable (package.Rereadable mode) :=
  inferInstanceAs (Decidable (∀ cls ∈ package.classes.values, cls.item.Rereadable mode))

instance (api : Api) : Decidable api.Rereadable :=
  inferInstanceAs (Decidable (∀ package ∈ api.packages.values,
    package.item.Rereadable api.nullMode))

/-! ## Clear descriptions -/

/-- The name is not taken for a bound of the type before it. -/
def ClearName (type : TypeRef) (name : String) : Prop :=
  type.endsOpen = true → name ≠ "extends" ∧ name ≠ "super"

def Parameter.Clear (parameter : Parameter) : Prop :=
  ∀ name ∈ parameter.name, ClearName parameter.type name

structure Constructor.Clear (item : Constructor) : Prop where
  name : item.typeParams = [] → ModifierWord.ofWord? (firstPart item.name) = none
  parameters : ∀ parameter ∈ item.parameters, parameter.Clear

structure Method.Clear (item : Method) : Prop where
  name : ClearName item.returnType item.name
  parameters : ∀ parameter ∈ item.parameters, parameter.Clear

def Field.Clear (item : Field) : Prop := ClearName item.type item.name

def Member.Clear : Member → Prop
  | .constructor item => item.Clear
  | .method item => item.Clear
  | .field item => item.Clear

def Api.Clear (api : Api) : Prop :=
  ∀ package ∈ api.packages.values, ∀ cls ∈ package.item.classes.values,
    ∀ member ∈ cls.item.members.values, member.item.Clear

end ApiCompat
