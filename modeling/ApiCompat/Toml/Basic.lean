/-!
# TOML values

The values of a configuration file.  Numbers with a fraction and dates are kept
as written, since nothing is asked of them but to be well-formed.
-/

set_option autoImplicit false

namespace ApiCompat

inductive Toml where
  | string (value : String)
  | integer (value : Int)
  | float (text : String)
  | boolean (value : Bool)
  | datetime (text : String)
  | array (items : List Toml)
  | table (entries : List (String × Toml))

instance : Inhabited Toml := ⟨.table []⟩

end ApiCompat
