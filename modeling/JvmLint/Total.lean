/-!
# Totals
-/

namespace JvmLint

def total : List Nat → Nat
  | [] => 0
  | n :: ns => n + total ns

end JvmLint
