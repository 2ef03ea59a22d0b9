/-!
# Modifiers of a declaration

A declaration has one visibility, any of eleven flags, and annotations kept
word for word.  A modifier word sets the visibility or raises a flag; flags
are never lowered, and of several visibilities the last one stands.
-/

set_option autoImplicit false

namespace ApiCompat

inductive Visibility where
  | privateScope
  | packageScope
  | internalScope
  | protectedScope
  | publicScope
deriving DecidableEq, Inhabited

namespace Visibility

/-- How widely the declaration can be seen; a smaller rank is a narrower scope. -/
def rank : Visibility → Nat
  | privateScope => 0
  | packageScope => 1
  | internalScope => 1
  | protectedScope => 2
  | publicScope => 3

/-- The modifier word of a visibility; package scope is the absence of a word. -/
def word? : Visibility → Option String
  | privateScope => some "private"
  | packageScope => none
  | internalScope => some "internal"
  | protectedScope => some "protected"
  | publicScope => some "public"

def describe (visibility : Visibility) : String :=
  visibility.word?.getD "package-private"

end Visibility

inductive Flag where
  | deprecatedFlag
  | sealedFlag
  | staticFlag
  | finalFlag
  | abstractFlag
  | defaultFlag
  | synchronizedFlag
  | nativeFlag
  | transientFlag
  | volatileFlag
  | strictfpFlag
deriving DecidableEq

namespace Flag

def all : List Flag :=
  [deprecatedFlag, sealedFlag, staticFlag, finalFlag, abstractFlag, defaultFlag,
    synchronizedFlag, nativeFlag, transientFlag, volatileFlag, strictfpFlag]

def word : Flag → String
  | deprecatedFlag => "deprecated"
  | sealedFlag => "sealed"
  | staticFlag => "static"
  | finalFlag => "final"
  | abstractFlag => "abstract"
  | defaultFlag => "default"
  | synchronizedFlag => "synchronized"
  | nativeFlag => "native"
  | transientFlag => "transient"
  | volatileFlag => "volatile"
  | strictfpFlag => "strictfp"

end Flag

inductive ModifierWord where
  | scope (visibility : Visibility)
  | flag (flag : Flag)
deriving DecidableEq

def ModifierWord.ofWord? : String → Option ModifierWord
  | "public" => some (.scope .publicScope)
  | "protected" => some (.scope .protectedScope)
  | "private" => some (.scope .privateScope)
  | "internal" => some (.scope .internalScope)
  | "deprecated" => some (.flag .deprecatedFlag)
  | "sealed" => some (.flag .sealedFlag)
  | "static" => some (.flag .staticFlag)
  | "final" => some (.flag .finalFlag)
  | "abstract" => some (.flag .abstractFlag)
  | "default" => some (.flag .defaultFlag)
  | "synchronized" => some (.flag .synchronizedFlag)
  | "native" => some (.flag .nativeFlag)
  | "transient" => some (.flag .transientFlag)
  | "volatile" => some (.flag .volatileFlag)
  | "strictfp" => some (.flag .strictfpFlag)
  | _ => none

/-- The modifiers of a declaration and its annotations other than nullness. -/
structure Modifiers where
  visibility : Visibility := .packageScope
  isStatic : Bool := false
  isFinal : Bool := false
  isAbstract : Bool := false
  isDefault : Bool := false
  isSynchronized : Bool := false
  isNative : Bool := false
  isTransient : Bool := false
  isVolatile : Bool := false
  isStrictfp : Bool := false
  isSealed : Bool := false
  isDeprecated : Bool := false
  /-- Annotations as written, such as `@IntRange(from=0)`. -/
  annotations : List String := []
deriving DecidableEq, Inhabited

namespace Modifiers

def has (modifiers : Modifiers) : Flag → Bool
  | .deprecatedFlag => modifiers.isDeprecated
  | .sealedFlag => modifiers.isSealed
  | .staticFlag => modifiers.isStatic
  | .finalFlag => modifiers.isFinal
  | .abstractFlag => modifiers.isAbstract
  | .defaultFlag => modifiers.isDefault
  | .synchronizedFlag => modifiers.isSynchronized
  | .nativeFlag => modifiers.isNative
  | .transientFlag => modifiers.isTransient
  | .volatileFlag => modifiers.isVolatile
  | .strictfpFlag => modifiers.isStrictfp

def raise (modifiers : Modifiers) : Flag → Modifiers
  | .deprecatedFlag => { modifiers with isDeprecated := true }
  | .sealedFlag => { modifiers with isSealed := true }
  | .staticFlag => { modifiers with isStatic := true }
  | .finalFlag => { modifiers with isFinal := true }
  | .abstractFlag => { modifiers with isAbstract := true }
  | .defaultFlag => { modifiers with isDefault := true }
  | .synchronizedFlag => { modifiers with isSynchronized := true }
  | .nativeFlag => { modifiers with isNative := true }
  | .transientFlag => { modifiers with isTransient := true }
  | .volatileFlag => { modifiers with isVolatile := true }
  | .strictfpFlag => { modifiers with isStrictfp := true }

def add (modifiers : Modifiers) : ModifierWord → Modifiers
  | .scope visibility => { modifiers with visibility := visibility }
  | .flag flag => modifiers.raise flag

def applyWord? (modifiers : Modifiers) (word : String) : Option Modifiers :=
  (ModifierWord.ofWord? word).map modifiers.add

def annotate (modifiers : Modifiers) (text : String) : Modifiers :=
  { modifiers with annotations := modifiers.annotations ++ [text] }

def words (modifiers : Modifiers) : List String :=
  modifiers.visibility.word?.toList ++ (Flag.all.filter modifiers.has).map Flag.word

/-- Raising a flag raises that flag and leaves the others as they are. -/
theorem has_raise (modifiers : Modifiers) (raised asked : Flag) :
    (modifiers.raise raised).has asked = (decide (raised = asked) || modifiers.has asked) := by
  cases raised <;> cases asked <;> rfl

end Modifiers

end ApiCompat
