import ApiCompat.Nullness

/-!
# Types as a signature file writes them

A `TypeRef` is a name with type arguments, an optional wildcard bound, array
brackets, a varargs mark and a nullness.  `display` writes a type without its
nullness, `erasure` also without its arguments, and `sameShape` compares two
types without their nullness at any depth.
-/

set_option autoImplicit false

namespace ApiCompat

inductive Bound (α : Type) where
  | unbounded
  | upper (type : α)
  | lower (type : α)

structure TypeRef where
  /-- A qualified name, a primitive, a type variable, or `?` for a wildcard. -/
  name : String
  args : List TypeRef := []
  bound : Bound TypeRef := .unbounded
  arrayDims : Nat := 0
  varargs : Bool := false
  nullness : Nullness := .unspecified

namespace TypeRef

instance : Inhabited TypeRef := ⟨{ name := "" }⟩

/-! ## Equality -/

mutual

def beq : TypeRef → TypeRef → Bool
  | ⟨name, args, bound, dims, varargs, nullness⟩,
    ⟨name', args', bound', dims', varargs', nullness'⟩ =>
      name == name' && beqAll args args' && beqBound bound bound' && dims == dims' &&
        varargs == varargs' && nullness == nullness'
termination_by structural type => type

def beqAll : List TypeRef → List TypeRef → Bool
  | [], [] => true
  | type :: rest, type' :: rest' => beq type type' && beqAll rest rest'
  | _, _ => false
termination_by structural types => types

def beqBound : Bound TypeRef → Bound TypeRef → Bool
  | .unbounded, .unbounded => true
  | .upper type, .upper type' => beq type type'
  | .lower type, .lower type' => beq type type'
  | _, _ => false
termination_by structural bound => bound

end

mutual

theorem beq_iff : (type other : TypeRef) → (beq type other = true ↔ type = other)
  | ⟨_, args, bound, _, _, _⟩, ⟨_, args', bound', _, _, _⟩ => by
      have inArgs := beqAll_iff args args'
      have inBound := beqBound_iff bound bound'
      simp only [beq, Bool.and_eq_true, beq_iff_eq, inArgs, inBound, mk.injEq]
      constructor
      · rintro ⟨⟨⟨⟨⟨h₁, h₂⟩, h₃⟩, h₄⟩, h₅⟩, h₆⟩
        exact ⟨h₁, h₂, h₃, h₄, h₅, h₆⟩
      · rintro ⟨h₁, h₂, h₃, h₄, h₅, h₆⟩
        exact ⟨⟨⟨⟨⟨h₁, h₂⟩, h₃⟩, h₄⟩, h₅⟩, h₆⟩
termination_by structural type => type

theorem beqAll_iff : (types others : List TypeRef) → (beqAll types others = true ↔ types = others)
  | [], [] => by simp [beqAll]
  | [], _ :: _ => by simp [beqAll]
  | _ :: _, [] => by simp [beqAll]
  | type :: rest, type' :: rest' => by
      have first := beq_iff type type'
      have later := beqAll_iff rest rest'
      simp [beqAll, first, later]
termination_by structural types => types

theorem beqBound_iff : (bound other : Bound TypeRef) → (beqBound bound other = true ↔ bound = other)
  | .unbounded, .unbounded => by simp [beqBound]
  | .upper type, .upper type' => by
      have inner := beq_iff type type'
      simp [beqBound, inner]
  | .lower type, .lower type' => by
      have inner := beq_iff type type'
      simp [beqBound, inner]
  | .unbounded, .upper _ | .unbounded, .lower _ | .upper _, .unbounded
  | .upper _, .lower _ | .lower _, .unbounded | .lower _, .upper _ => by simp [beqBound]
termination_by structural bound => bound

end

instance : DecidableEq TypeRef := fun type other =>
  decidable_of_iff (beq type other = true) (beq_iff type other)

/-! ## Kinds of types -/

def isWildcard (type : TypeRef) : Bool := type.name == "?"

def isPlural (type : TypeRef) : Bool := type.arrayDims != 0 || type.varargs

def isVoid (type : TypeRef) : Bool := type.name == "void" && !type.isPlural

def primitives : List String :=
  ["boolean", "byte", "char", "short", "int", "long", "float", "double", "void"]

def isPrimitive (type : TypeRef) : Bool := primitives.contains type.name && !type.isPlural

/-! ## Written forms -/

def suffixes (dims : Nat) (varargs : Bool) : String :=
  String.join (List.replicate dims "[]") ++ (if varargs then "..." else "")

/-- The type without arguments, bound and nullness: what tells overloads apart. -/
def erasure (type : TypeRef) : String := type.name ++ suffixes type.arrayDims type.varargs

mutual

/-- The type without nullness. -/
def display : TypeRef → String
  | ⟨name, args, bound, dims, varargs, _⟩ =>
      name ++ displayBound bound ++ displayArgs args ++ suffixes dims varargs
termination_by structural type => type

def displayBound : Bound TypeRef → String
  | .unbounded => ""
  | .upper type => " extends " ++ display type
  | .lower type => " super " ++ display type
termination_by structural bound => bound

def displayArgs : List TypeRef → String
  | [] => ""
  | type :: rest => "<" ++ display type ++ displayMore rest
termination_by structural types => types

def displayMore : List TypeRef → String
  | [] => ">"
  | type :: rest => ", " ++ display type ++ displayMore rest
termination_by structural types => types

end

/-! ## Shape -/

mutual

/-- The type with every nullness in it reset. -/
def shape : TypeRef → TypeRef
  | ⟨name, args, bound, dims, varargs, _⟩ =>
      ⟨name, shapes args, shapeBound bound, dims, varargs, .unspecified⟩
termination_by structural type => type

def shapes : List TypeRef → List TypeRef
  | [] => []
  | type :: rest => shape type :: shapes rest
termination_by structural types => types

def shapeBound : Bound TypeRef → Bound TypeRef
  | .unbounded => .unbounded
  | .upper type => .upper (shape type)
  | .lower type => .lower (shape type)
termination_by structural bound => bound

end

mutual

/-- Whether two types agree in everything but nullness, at every depth. -/
def sameShape : TypeRef → TypeRef → Bool
  | ⟨name, args, bound, dims, varargs, _⟩, ⟨name', args', bound', dims', varargs', _⟩ =>
      name == name' && dims == dims' && varargs == varargs' && sameShapes args args' &&
        sameShapeBound bound bound'
termination_by structural type => type

def sameShapes : List TypeRef → List TypeRef → Bool
  | [], [] => true
  | type :: rest, type' :: rest' => sameShape type type' && sameShapes rest rest'
  | _, _ => false
termination_by structural types => types

def sameShapeBound : Bound TypeRef → Bound TypeRef → Bool
  | .unbounded, .unbounded => true
  | .upper type, .upper type' => sameShape type type'
  | .lower type, .lower type' => sameShape type type'
  | _, _ => false
termination_by structural bound => bound

end

end TypeRef

end ApiCompat
