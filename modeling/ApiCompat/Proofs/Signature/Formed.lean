import ApiCompat.Proofs.Api.Keyed
import ApiCompat.Proofs.Signature.Captured

/-!
# Well-formed descriptions

What a description must satisfy to be one of a signature text: names made of
allowed identifiers, wildcards without anything but a bound, and annotations
and values that are captured whole.
-/

set_option autoImplicit false

namespace ApiCompat

open Signature

/-- The allowed words are identifiers. -/
def Identifiers (allowed : String → Prop) : Prop :=
  ∀ word, allowed word → isIdentifier word = true

variable (allowed : String → Prop)

def DottedName (name : String) : Prop := ∀ part ∈ nameParts name, allowed part

instance {allowed : String → Prop} [DecidablePred allowed] (name : String) :
    Decidable (DottedName allowed name) :=
  inferInstanceAs (Decidable (∀ part ∈ nameParts name, allowed part))

theorem Identifiers.not_wildcard {allowed : String → Prop} (idents : Identifiers allowed) :
    ¬DottedName allowed "?" := by
  intro dotted
  have valid := idents "?" (dotted "?" (by decide))
  exact absurd valid (by decide)

namespace TypeRef

mutual

/-- A wildcard has only a bound, and other types have none. -/
def Formed : TypeRef → Prop
  | ⟨name, args, bound, dims, varargs, nullness⟩ =>
      (name = "?" ∧ args = [] ∧ dims = 0 ∧ varargs = false ∧ nullness = .unspecified ∧
        FormedBound bound) ∨
      (DottedName allowed name ∧ bound = .unbounded ∧ FormedAll args)
termination_by structural type => type

def FormedBound : Bound TypeRef → Prop
  | .unbounded => True
  | .upper type => Formed type
  | .lower type => Formed type
termination_by structural bound => bound

def FormedAll : List TypeRef → Prop
  | [] => True
  | type :: rest => Formed type ∧ FormedAll rest
termination_by structural types => types

end

variable {allowed}

theorem Formed.parts {type : TypeRef} (formed : type.Formed allowed) :
    (type.name = "?" ∨ DottedName allowed type.name) ∧ FormedBound allowed type.bound ∧
      FormedAll allowed type.args := by
  obtain ⟨name, args, bound, dims, varargs, nullness⟩ := type
  rcases formed with ⟨wildcard, rfl, _, _, _, inBound⟩ | ⟨dotted, rfl, inArgs⟩
  · exact ⟨.inl wildcard, inBound, trivial⟩
  · exact ⟨.inr dotted, trivial, inArgs⟩

theorem formedAll_iff {types : List TypeRef} :
    FormedAll allowed types ↔ ∀ type ∈ types, type.Formed allowed := by
  induction types with
  | nil => simp [FormedAll]
  | cons type types ih => simp [FormedAll, ih]

end TypeRef

structure TypeParam.Formed (param : TypeParam) : Prop where
  name : allowed param.name
  bounds : ∀ type ∈ param.bounds, type.Formed allowed

structure Parameter.Formed (parameter : Parameter) : Prop where
  name : ∀ name ∈ parameter.name, allowed name
  type : parameter.type.Formed allowed

/-- The annotations are captured whole. -/
def Modifiers.Formed (modifiers : Modifiers) : Prop :=
  ∀ text ∈ modifiers.annotations, CapturedAnnotation text

structure Constructor.Formed (item : Constructor) : Prop where
  name : DottedName allowed item.name
  modifiers : item.modifiers.Formed
  typeParams : ∀ param ∈ item.typeParams, param.Formed allowed
  parameters : ∀ parameter ∈ item.parameters, parameter.Formed allowed
  throws : ∀ type ∈ item.throws, type.Formed allowed

structure Method.Formed (item : Method) : Prop where
  name : allowed item.name
  modifiers : item.modifiers.Formed
  typeParams : ∀ param ∈ item.typeParams, param.Formed allowed
  returnType : item.returnType.Formed allowed
  parameters : ∀ parameter ∈ item.parameters, parameter.Formed allowed
  throws : ∀ type ∈ item.throws, type.Formed allowed
  defaultValue : ∀ text ∈ item.defaultValue, CapturedValue text

structure Field.Formed (item : Field) : Prop where
  name : allowed item.name
  modifiers : item.modifiers.Formed
  type : item.type.Formed allowed
  value : ∀ text ∈ item.value, CapturedValue text

def Member.Formed : Member → Prop
  | .constructor item => item.Formed allowed
  | .method item => item.Formed allowed
  | .field item => item.Formed allowed

structure ClassDecl.Formed (cls : ClassDecl) : Prop where
  name : DottedName allowed cls.name
  modifiers : cls.modifiers.Formed
  typeParams : ∀ param ∈ cls.typeParams, param.Formed allowed
  superclass : ∀ type ∈ cls.superclass, type.Formed allowed
  interfaces : ∀ type ∈ cls.interfaces.toList, type.Formed allowed
  /-- What an interface extends are interfaces. -/
  noSuperclass : cls.kind = .interfaceKind → cls.superclass = none
  members : ∀ member ∈ cls.members.values, member.item.Formed allowed

structure Package.Formed (package : Package) : Prop where
  name : DottedName allowed package.name
  qualified : ∀ cls ∈ package.classes.values,
    cls.item.qualifiedName = qualify package.name cls.item.name
  classes : ∀ cls ∈ package.classes.values, cls.item.Formed allowed

/-- Everything is stored under its name and formed of allowed words. -/
structure Api.Formed (api : Api) : Prop where
  keyed : api.Keyed
  packages : ∀ package ∈ api.packages.values, package.item.Formed allowed

end ApiCompat
