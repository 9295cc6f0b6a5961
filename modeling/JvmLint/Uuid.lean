import JvmLint.Text.Quoted

/-!
# Unique ids

Ids made from a number that somebody drew at random: five groups of hexadecimal digits, with the mark
of random ids in the third and fourth.
-/

namespace JvmLint.Uuid

def group (n start width : Nat) : String := String.ofList (Text.hexDigits width (n / Nat.pow 16 start % Nat.pow 16 width))

def text (n : Nat) : String :=
  group n 0 8 ++ "-" ++ group n 8 4 ++ "-4" ++ group n 12 3 ++ "-" ++ group (8 + n / Nat.pow 16 30 % 4) 0 1 ++ group n 15 3 ++ "-" ++
    group n 18 12

end JvmLint.Uuid
