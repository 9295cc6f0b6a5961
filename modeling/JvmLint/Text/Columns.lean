/-!
# Columns

Rows of cells as lines. Each column but the last is as wide as its widest cell and two blanks.
-/

namespace JvmLint.Columns

def gap : Nat := 2

def pad (width : Nat) (s : String) : String := s ++ String.ofList (List.replicate (width - s.length) ' ')

def widths : List (List String) → List Nat
  | [] => []
  | row :: rows =>
    let own := row.dropLast.map fun c => c.length + gap
    let others := widths rows
    (List.range (max own.length others.length)).map fun i => max (own.getD i 0) (others.getD i 0)

def line (ws : List Nat) (row : List String) : String :=
  String.join (List.zipWith pad ws row.dropLast) ++ row.getLastD "" ++ "\n"

def align (rows : List (List String)) : String := String.join (rows.map (line (widths rows)))

end JvmLint.Columns
