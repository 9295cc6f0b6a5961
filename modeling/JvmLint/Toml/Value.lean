/-!
# Values of configuration files
-/

namespace JvmLint

inductive Toml where
  | string (s : String)
  | int (n : Int)
  | float (f : Float)
  | bool (b : Bool)
  /-- A date or a time of day, by its text. -/
  | moment (text : String)
  | array (items : List Toml)
  | table (fields : List (String × Toml))
deriving Inhabited

namespace Toml

/-- A name as it is compared: letters that differ only in case are the same. -/
def fold (s : String) : String :=
  String.ofList (s.toList.map fun c =>
    if c = Char.ofNat 0x212a then 'k' else if c = Char.ofNat 0x17f then 's' else c.toLower)

/-- The value of a field. The exact name is preferred to one in other case. -/
def field? (fields : List (String × Toml)) (name : String) : Option Toml :=
  match fields.lookup name with
  | some v => some v
  | none => (fields.find? fun (k, _) => fold k == fold name).map (·.2)

def asString : Toml → Option String
  | string s => some s
  | _ => none

def asInt : Toml → Option Int
  | int n => some n
  | _ => none

def asFloat : Toml → Option Float
  | float f => some f
  | int n => if n.natAbs < Nat.pow 2 53 then some (Float.ofInt n) else none
  | _ => none

def asBool : Toml → Option Bool
  | bool b => some b
  | _ => none

def asList {α : Type} (read : Toml → Option α) : Toml → Option (List α)
  | array items => items.mapM read
  | _ => none

def asTable : Toml → Option (List (String × Toml))
  | table fields => some fields
  | _ => none

/-- Reads a field if it is there. -/
def get {α : Type} (fields : List (String × Toml)) (name : String) (read : Toml → Option α) (absent : α) : Option α :=
  match field? fields name with
  | some v => read v
  | none => some absent

def strings (l : List String) : Toml := .array (l.map .string)

end Toml

end JvmLint
