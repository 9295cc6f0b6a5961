import JvmLint.Fault
import JvmLint.Text.Blank
import JvmLint.Text.Quoted
import JvmLint.Text.Search

/-!
# Marked blocks

A document may mark a block between two comments, to be filled in by a report.
-/

namespace JvmLint.Markers

def startComment (marker : String) : String := "<!-- classlint:" ++ marker ++ ":start -->"

def endComment (marker : String) : String := "<!-- classlint:" ++ marker ++ ":end -->"

inductive Defect where
  | emptyMarker
  | notOnce (marker : String)
  | wrongOrder (marker : String)
deriving DecidableEq, Repr, Inhabited

def Defect.message : Defect → String
  | emptyMarker => "markdown marker must not be empty"
  | notOnce marker => "markdown marker " ++ Text.quote marker ++ " must appear exactly once for start and end"
  | wrongOrder marker => "invalid marker order for " ++ Text.quote marker

def Defect.fault (d : Defect) : Fault := .plain d.message

def toCrlf : List Char → List Char
  | [] => []
  | '\r' :: '\n' :: s => '\r' :: '\n' :: toCrlf s
  | '\n' :: s => '\r' :: '\n' :: toCrlf s
  | c :: s => c :: toCrlf s

def body (crlf : Bool) (replacement : String) : String :=
  let trimmed := Text.trimEnd replacement fun c => c == '\r' || c == '\n'
  if crlf then String.ofList (toCrlf trimmed.toList) else trimmed

def replace (content marker replacement : String) : Except Defect String :=
  let marker := Text.trim marker
  if marker = "" then .error .emptyMarker
  else if Text.count content (startComment marker) ≠ 1 || Text.count content (endComment marker) ≠ 1 then
    .error (.notOnce marker)
  else
    match Text.cut (startComment marker).toList content.toList, Text.cut (endComment marker).toList content.toList with
    | some (before, _), some (upToEnd, after) =>
      if upToEnd.length < before.length then .error (.wrongOrder marker)
      else
        let crlf := Text.contains content "\r\n"
        let newline := if crlf then "\r\n" else "\n"
        .ok (String.ofList before ++ startComment marker ++ newline ++ body crlf replacement ++ newline ++
          endComment marker ++ String.ofList after)
    | _, _ => .error (.notOnce marker)

end JvmLint.Markers
