import JvmLint.Text.Quoted

/-!
# Documents in JSON

Values with ordered fields, printed with an indent of two blanks. Characters that could end a script
element are escaped.
-/

namespace JvmLint

inductive JsonDoc where
  | text (s : String)
  | int (n : Int)
  /-- A number by its digits. -/
  | number (digits : String)
  | list (items : List JsonDoc)
  | object (fields : List (String × JsonDoc))

namespace JsonDoc

def escapeChar (c : Char) : List Char :=
  match c with
  | '"' => ['\\', '"']
  | '\\' => ['\\', '\\']
  | '\n' => ['\\', 'n']
  | '\r' => ['\\', 'r']
  | '\t' => ['\\', 't']
  | c =>
    let n := c.toNat
    if n = 0x08 then ['\\', 'b']
    else if n = 0x0c then ['\\', 'f']
    else if n < 0x20 || c == '<' || c == '>' || c == '&' || n = 0x2028 || n = 0x2029 then
      '\\' :: 'u' :: Text.hexDigits 4 n
    else [c]

def quoted (s : String) : String := String.ofList ('"' :: s.toList.flatMap escapeChar ++ ['"'])

def line (level : Nat) : String := String.ofList ('\n' :: List.replicate (2 * level) ' ')

mutual
def render (level : Nat) : JsonDoc → String
  | text s => quoted s
  | int n => toString n
  | number digits => digits
  | list [] => "[]"
  | list (d :: ds) => "[" ++ line (level + 1) ++ d.render (level + 1) ++ renderItems (level + 1) ds ++ line level ++ "]"
  | object [] => "\x7b\x7d"
  | object ((k, d) :: fs) =>
    "\x7b" ++ line (level + 1) ++ quoted k ++ ": " ++ d.render (level + 1) ++ renderFields (level + 1) fs ++ line level ++
      "\x7d"

def renderItems (level : Nat) : List JsonDoc → String
  | [] => ""
  | d :: ds => "," ++ line level ++ d.render level ++ renderItems level ds

def renderFields (level : Nat) : List (String × JsonDoc) → String
  | [] => ""
  | (k, d) :: fs => "," ++ line level ++ quoted k ++ ": " ++ d.render level ++ renderFields level fs
end

def print (d : JsonDoc) : String := d.render 0

/-- A field that is left out when empty. -/
def unlessEmpty (key value : String) : List (String × JsonDoc) := if value = "" then [] else [(key, .text value)]

def texts (l : List String) : JsonDoc := .list (l.map .text)

end JsonDoc


end JvmLint
