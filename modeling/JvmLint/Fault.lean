/-!
# Faults

A fault is a chain of causes. Some links carry a code and named details; the code of a chain is
that of its outermost coded link, and added details go to that same link. A link without a code is
worded when it is made, so details added below it later do not show in its text.
-/

namespace JvmLint

structure Code where
  text : String
deriving DecidableEq, Repr, Inhabited

namespace Code

def notFound : Code := ⟨"NOT_FOUND"⟩
def validation : Code := ⟨"VALIDATION_ERROR"⟩
def internal : Code := ⟨"INTERNAL_ERROR"⟩
def malformedDescriptor : Code := ⟨"MALFORMED_DESCRIPTOR"⟩
def malformedClass : Code := ⟨"MALFORMED_CLASS"⟩

end Code

/-- Named values that say where a failure arose, one value a key, sorted by key. -/
abbrev Details := List (String × String)

namespace Details

def set (key value : String) : Details → Details
  | [] => [(key, value)]
  | (k, v) :: rest =>
    if key = k then (k, value) :: rest
    else if key < k then (key, value) :: (k, v) :: rest
    else (k, v) :: set key value rest

/-- The parenthesis that follows a message; nothing without details. -/
def text (details : Details) : String :=
  if details.isEmpty then ""
  else " (" ++ " ".intercalate (details.map fun (k, v) => k ++ "=" ++ v) ++ ")"

end Details

structure Note where
  code : Code
  message : String
  details : Details := []
deriving DecidableEq, Repr, Inhabited

def Note.head (n : Note) : String := "[" ++ n.code.text ++ "] " ++ n.message

inductive Fault where
  | plain (text : String)
  | coded (note : Note)
  | wrapped (note : Note) (cause : Fault)
  | framed (text : String) (cause : Fault)
deriving DecidableEq, Repr, Inhabited

namespace Fault

/-- A coded fault with no cause below it. -/
def new (code : Code) (message : String) : Fault := .coded { code, message }

def wrap (cause : Fault) (code : Code) (message : String) : Fault := .wrapped { code, message } cause

/-- What a reader is shown: causes follow their link after a colon, details close it. -/
def text : Fault → String
  | plain t => t
  | coded n => n.head ++ n.details.text
  | wrapped n cause => n.head ++ ": " ++ cause.text ++ n.details.text
  | framed t _ => t

def label (cause : Fault) (label : String) : Fault := .framed (label ++ ": " ++ cause.text) cause

def code? : Fault → Option Code
  | plain _ => none
  | coded n => some n.code
  | wrapped n _ => some n.code
  | framed _ cause => cause.code?

def hasCode (f : Fault) (code : Code) : Bool := f.code? == some code

/-- Sets a detail on the outermost coded link, if the chain has one. -/
def setDetail? (key value : String) : Fault → Option Fault
  | plain _ => none
  | coded n => some (coded { n with details := n.details.set key value })
  | wrapped n cause => some (wrapped { n with details := n.details.set key value } cause)
  | framed t cause => (cause.setDetail? key value).map (framed t)

/-- Adds a detail; a chain without a coded link gets an internal one around it to carry it. -/
def addDetail (f : Fault) (key value : String) : Fault :=
  match f.setDetail? key value with
  | some g => g
  | none => .wrapped { code := .internal, message := "wrapped error", details := [(key, value)] } f

end Fault

end JvmLint
