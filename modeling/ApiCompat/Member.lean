import ApiCompat.Modifiers
import ApiCompat.TypeRef

/-!
# Members of classes

Constructors, methods and fields, and the key by which a member is found in
its class.  Overloads differ in the erasures of their parameter types;
parameter names take no part in a key.
-/

set_option autoImplicit false

namespace ApiCompat

/-- A declaration with the line on which it starts.  Lines say where a thing is, not what it is. -/
structure Located (α : Type) where
  line : Nat
  item : α
deriving DecidableEq, Inhabited

structure TypeParam where
  name : String
  bounds : List TypeRef := []
deriving DecidableEq

structure Parameter where
  name : Option String := none
  type : TypeRef
deriving DecidableEq

/-- The name of a parameter in messages: its own, or one made from its index. -/
def Parameter.displayName (parameter : Parameter) (index : Nat) : String :=
  parameter.name.getD ("arg" ++ toString (index + 1))

structure Constructor where
  /-- The class name as written, dotted for nested classes. -/
  name : String
  modifiers : Modifiers := {}
  typeParams : List TypeParam := []
  parameters : List Parameter := []
  throws : List TypeRef := []
deriving DecidableEq

structure Method where
  name : String
  modifiers : Modifiers := {}
  typeParams : List TypeParam := []
  returnType : TypeRef
  parameters : List Parameter := []
  throws : List TypeRef := []
  /-- The default value of an element of an annotation type, as written. -/
  defaultValue : Option String := none
deriving DecidableEq

structure Field where
  name : String
  modifiers : Modifiers := {}
  type : TypeRef
  /-- The constant value, as written. -/
  value : Option String := none
  isEnumConstant : Bool := false
deriving DecidableEq

inductive Member where
  | constructor (item : Constructor)
  | method (item : Method)
  | field (item : Field)
deriving DecidableEq

inductive MemberKey where
  | constructor (parameters : List String)
  | method (name : String) (parameters : List String)
  | field (name : String)
deriving DecidableEq

def joinWith (separator : String) : List String → String
  | [] => ""
  | text :: rest => rest.foldl (fun sofar next => sofar ++ separator ++ next) text

def erasures (parameters : List Parameter) : List String :=
  parameters.map fun parameter => parameter.type.erasure

/-- A name with the types of its parameters, such as `convert(Float, int)`. -/
def callSignature (name : String) (parameters : List Parameter) : String :=
  name ++ "(" ++ joinWith ", " (parameters.map fun parameter => parameter.type.display) ++ ")"

def Constructor.signature (item : Constructor) : String := callSignature item.name item.parameters

def Method.signature (item : Method) : String := callSignature item.name item.parameters

namespace MemberKey

/-- The key as text; constructors go by `<init>`. -/
def display : MemberKey → String
  | constructor parameters => "<init>(" ++ joinWith ", " parameters ++ ")"
  | method name parameters => name ++ "(" ++ joinWith ", " parameters ++ ")"
  | field name => name

def compareTexts : List String → List String → Ordering
  | [], [] => .eq
  | [], _ :: _ => .lt
  | _ :: _, [] => .gt
  | text :: rest, text' :: rest' => (compare text text').then (compareTexts rest rest')

/-- The order of keys: constructors, methods, fields, and then by content. -/
def compareKeys : MemberKey → MemberKey → Ordering
  | constructor parameters, constructor parameters' => compareTexts parameters parameters'
  | constructor _, _ => .lt
  | _, constructor _ => .gt
  | method name parameters, method name' parameters' =>
      (compare name name').then (compareTexts parameters parameters')
  | method _ _, _ => .lt
  | _, method _ _ => .gt
  | field name, field name' => compare name name'

end MemberKey

namespace Member

def key : Member → MemberKey
  | constructor item => .constructor (erasures item.parameters)
  | method item => .method item.name (erasures item.parameters)
  | field item => .field item.name

def modifiers : Member → Modifiers
  | constructor item => item.modifiers
  | method item => item.modifiers
  | field item => item.modifiers

end Member

end ApiCompat
