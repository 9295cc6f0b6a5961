import JvmLint.Text.Commas
import JvmLint.Text.Number
import JvmLint.Text.Quoted

/-!
# Flags

Arguments of a command line that begin with a dash. Two dashes stand before a name, one before letters.
A value follows an equals sign or is the next argument; a switch needs none.
-/

namespace JvmLint

inductive FlagKind where
  | text
  | switch
  | number
  /-- Values separated by commas; each mention adds to those before. -/
  | list
deriving DecidableEq, Repr, Inhabited

structure Flag where
  name : String
  short : Option Char := none
  kind : FlagKind
  /-- What the help says. -/
  usage : String := ""
deriving DecidableEq, Repr, Inhabited

inductive FlagValue where
  | text (s : String)
  | switch (b : Bool)
  | number (n : Int)
  | list (l : List String)
deriving DecidableEq, Repr, Inhabited

def Flag.shown (f : Flag) : String :=
  match f.short with
  | some c => "-" ++ String.ofList [c] ++ ", --" ++ f.name
  | none => "--" ++ f.name

inductive FlagDefect where
  | unknown (name : String)
  /-- A letter of a group that no flag has. -/
  | unknownLetter (letter : Char) (group : String)
  | malformed (argument : String)
  | needsValue (name : String)
  | letterNeedsValue (letter : Char) (group : String)
  | badValue (value : String) (flag : Flag) (reason : String)
deriving DecidableEq, Repr, Inhabited

def FlagDefect.message : FlagDefect → String
  | unknown name => "unknown flag: --" ++ name
  | unknownLetter c group => "unknown shorthand flag: " ++ Text.quoteChar c ++ " in -" ++ group
  | malformed s => "bad flag syntax: " ++ s
  | needsValue name => "flag needs an argument: --" ++ name
  | letterNeedsValue c group => "flag needs an argument: " ++ Text.quoteChar c ++ " in -" ++ group
  | badValue v f reason => "invalid argument " ++ Text.quote v ++ " for " ++ Text.quote f.shown ++ " flag: " ++ reason

namespace FlagValue

def wrongNumber (kind s reason : String) : String := "strconv." ++ kind ++ ": parsing " ++ Text.quote s ++ ": " ++ reason

def read (kind : FlagKind) (s : String) : Except String FlagValue :=
  match kind with
  | .text => .ok (.text s)
  | .switch =>
    match Text.flagBool? s with
    | some b => .ok (.switch b)
    | none => .error (wrongNumber "ParseBool" s "invalid syntax")
  | .number =>
    match Text.anyInt s with
    | .ok n => .ok (.number n)
    | .error .badDigits => .error (wrongNumber "ParseInt" s "invalid syntax")
    | .error .outOfRange => .error (wrongNumber "ParseInt" s "value out of range")
  | .list => (Commas.parse s).map .list |>.mapError (·.message)

/-- A value after one that was there before. -/
def after (old : Option FlagValue) (new : FlagValue) : FlagValue :=
  match old, new with
  | some (.list a), .list b => .list (a ++ b)
  | _, v => v

end FlagValue

structure Arguments where
  values : List (String × FlagValue) := []
  rest : List String := []
deriving DecidableEq, Repr, Inhabited

namespace Arguments

def isSet (a : Arguments) (name : String) : Bool := (a.values.lookup name).isSome

def text (a : Arguments) (name : String) (default : String) : String :=
  match a.values.lookup name with
  | some (.text s) => s
  | _ => default

def switch (a : Arguments) (name : String) : Bool := a.values.lookup name == some (.switch true)

def number (a : Arguments) (name : String) (default : Int) : Int :=
  match a.values.lookup name with
  | some (.number n) => n
  | _ => default

def list (a : Arguments) (name : String) : List String :=
  match a.values.lookup name with
  | some (.list l) => l
  | _ => []

def set (a : Arguments) (f : Flag) (raw : String) : Except FlagDefect Arguments :=
  match FlagValue.read f.kind raw with
  | .error reason => .error (.badValue raw f reason)
  | .ok v => .ok { a with values := (f.name, v.after (a.values.lookup f.name)) :: a.values.filter (·.1 != f.name) }

end Arguments

/-- What one argument says: values of flags, and maybe a flag whose value is the next argument, with what
is wrong if there is none. -/
structure Mention where
  settings : List (Flag × String) := []
  awaits : Option (Flag × FlagDefect) := none
deriving DecidableEq, Repr, Inhabited

namespace Flag

def named (flags : List Flag) (name : String) : Option Flag := flags.find? (·.name == name)

def lettered (flags : List Flag) (c : Char) : Option Flag := flags.find? (·.short == some c)

/-- The first byte of a character, as a character. -/
def firstByte (c : Char) : Char := Char.ofNat (((String.ofList [c]).toUTF8.toList.head?.map UInt8.toNat).getD 0)

/-- A group of letters. Switches may stand in front of others; a group that begins with `test.` is
passed over. -/
def mentionLetters (flags : List Flag) : List Char → Except FlagDefect Mention
  | [] => .ok {}
  | c :: rest =>
    let group := String.ofList (c :: rest)
    if Text.startsWith group "test." then .ok {}
    else
      match lettered flags c with
      | none => .error (.unknownLetter (firstByte c) group)
      | some f =>
        match rest with
        | '=' :: v :: vs => .ok { settings := [(f, String.ofList (v :: vs))] }
        | _ =>
          if f.kind = .switch then do
            let m ← mentionLetters flags rest
            return { m with settings := (f, "true") :: m.settings }
          else if rest.isEmpty then .ok { awaits := some (f, .letterNeedsValue c group) }
          else .ok { settings := [(f, String.ofList rest)] }

/-- A name after two dashes, maybe with a value. -/
def mentionName (flags : List Flag) (body : List Char) : Except FlagDefect Mention :=
  match body with
  | [] | '-' :: _ | '=' :: _ => .error (.malformed ("--" ++ String.ofList body))
  | _ =>
    let name := String.ofList (body.takeWhile (· != '='))
    match named flags name, body.dropWhile (· != '=') with
    | none, _ => .error (.unknown name)
    | some f, _ :: v => .ok { settings := [(f, String.ofList v)] }
    | some f, [] => .ok (if f.kind = .switch then { settings := [(f, "true")] } else { awaits := some (f, .needsValue name) })

/-- Reads arguments after some that were read. Flags and others may be mixed; all that follows two dashes
alone is no flag. -/
def readFrom (flags : List Flag) (a : Arguments) : List String → Except FlagDefect Arguments
  | [] => .ok a
  | s :: rest =>
    match s.toList with
    | ['-', '-'] => .ok { a with rest := a.rest ++ rest }
    | '-' :: c :: cs => do
      let m ← if c = '-' then mentionName flags cs else mentionLetters flags (c :: cs)
      let a ← m.settings.foldlM (fun a (f, v) => a.set f v) a
      match m.awaits, rest with
      | none, rest => readFrom flags a rest
      | some (f, _), v :: rest => readFrom flags (← a.set f v) rest
      | some (_, d), [] => .error d
    | _ => readFrom flags { a with rest := a.rest ++ [s] } rest
termination_by args => args.length

def read (flags : List Flag) (args : List String) : Except FlagDefect Arguments := readFrom flags {} args

def takesNext (flags : List Flag) (s : String) : Bool :=
  if Text.contains s "=" then false
  else
    match s.toList with
    | '-' :: '-' :: name => !(named flags (String.ofList name)).any (·.kind == .switch)
    | ['-', c] => c.utf8Size == 1 && !(lettered flags c).any (·.kind == .switch)
    | _ => false

/-- The arguments that are neither flags nor their values. -/
def words (flags : List Flag) : List String → List String
  | [] => []
  | s :: rest =>
    if s = "--" then []
    else if takesNext flags s then
      match rest with
      | [] => []
      | _ :: rest => words flags rest
    else if s = "" || Text.startsWith s "-" then words flags rest
    else s :: words flags rest

/-- The arguments without the first that is the given word. -/
def withoutWord (flags : List Flag) (word : String) : List String → List String
  | [] => []
  | s :: rest =>
    if s = "--" then s :: rest
    else if takesNext flags s then
      match rest with
      | [] => [s]
      | v :: rest => s :: v :: withoutWord flags word rest
    else if s = word && !Text.startsWith s "-" then rest
    else s :: withoutWord flags word rest

end Flag

end JvmLint
