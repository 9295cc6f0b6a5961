import JvmLint.Fault
import JvmLint.Text.Letters
import JvmLint.Text.Number

/-!
# Network addresses

A host and a port with a colon between them. A host that has colons itself stands in brackets.
-/

namespace JvmLint

structure HostPort where
  host : String
  port : String
deriving DecidableEq, Repr, Inhabited

namespace HostPort

inductive Defect where
  | missingPort | tooManyColons | missingBracket | unexpectedOpen | unexpectedClose
deriving DecidableEq, Repr, Inhabited

def Defect.message : Defect → String
  | missingPort => "missing port in address"
  | tooManyColons => "too many colons in address"
  | missingBracket => "missing ']' in address"
  | unexpectedOpen => "unexpected '[' in address"
  | unexpectedClose => "unexpected ']' in address"

def parseBracketed (inner : List Char) : Except Defect HostPort :=
  let host := inner.takeWhile (· != ']')
  match inner.drop host.length with
  | [] => .error .missingBracket
  | [_] => .error .missingPort
  | _ :: ':' :: port =>
    if port.contains ':' then .error .tooManyColons
    else if (host ++ port).contains '[' then .error .unexpectedOpen
    else if port.contains ']' then .error .unexpectedClose
    else .ok ⟨String.ofList host, String.ofList port⟩
  | _ => .error .missingPort

def parse (s : String) : Except Defect HostPort :=
  let cs := s.toList
  if !cs.contains ':' then .error .missingPort
  else
    match cs with
    | '[' :: inner => parseBracketed inner
    | _ =>
      let host := cs.takeWhile (· != ':')
      let port := cs.drop (host.length + 1)
      if port.contains ':' then .error .tooManyColons
      else if cs.contains '[' then .error .unexpectedOpen
      else if cs.contains ']' then .error .unexpectedClose
      else .ok ⟨String.ofList host, String.ofList port⟩

def services : List String := ["domain", "finger", "ftp", "ftps", "gopher", "http", "https", "imap2", "imap3", "imaps", "pop3",
  "pop3s", "smtp", "submissions", "ssh", "telnet"]

def portDefect? (port : String) : Option String :=
  let (negative, digits) := Text.signed port.toList
  if digits.all (Text.isDigitOf 10) then
    if (negative && Text.digitsValue 10 digits != 0) || 65535 < Text.digitsValue 10 digits then
      some ("address " ++ port ++ ": invalid port")
    else none
  else if services.contains (Text.lower port) then none
  else some ("lookup tcp/" ++ port ++ ": unknown port")

/-- Whether one can listen on an address; nothing stands for any port. -/
def listen (s : String) : Except Fault Unit :=
  let refuse (what : String) : Except Fault Unit := .error (.plain ("listen tcp: " ++ what))
  if s = "" then .ok ()
  else
    match parse s with
    | .error d => refuse ("address " ++ s ++ ": " ++ d.message)
    | .ok a =>
      match portDefect? a.port with
      | some what => refuse what
      | none => .ok ()

end HostPort

end JvmLint
