import JvmLint.Check.Basic

/-!
# Swallowed exceptions

A typed handler that drops the exception and goes on without doing anything.
-/

namespace JvmLint.SwallowedException

def info : CheckInfo :=
  ⟨"SwallowedException", .style, "Catch blocks that discard the exception without handling it."⟩

/-- Where normal control flow goes on after a protected region: the target of the jump that closes
it, if there is one at its end. -/
def tryExit? (m : Method) (t : TryCatch) : Option Label :=
  match m.labelIndex? t.stop with
  | none => none
  | some i =>
    match (m.body.drop i).findSome? (·.real?) with
    | some o => if o.op = .goto then some o.target else none
    | none => none

/-- Whether a handler leaves without work after the exception was put away. Values pushed for a
return are no work, unless one is the caught exception from slot `caught`. -/
def isIdle (exit : Option Label) (caught : Int) : Bool → List Instruction → Bool
  | _, [] => true
  | pushed, .label l :: is => exit == some l || isIdle exit caught pushed is
  | pushed, .real o :: is =>
    match o.role with
    | .jump => !pushed && o.op == .goto
    | .returns => true
    | .load => o.slot != caught && isIdle exit caught true is
    | _ => o.op.isConstant && isIdle exit caught true is
  | pushed, _ :: is => isIdle exit caught pushed is

/-- Whether a handler is empty, from its first instruction on. It may store or pop the exception
first; without a store no slot holds it, which -1 stands for. -/
def isEmpty (exit : Option Label) : List Instruction → Bool
  | [] => true
  | .label l :: is => exit == some l || isEmpty exit is
  | .real o :: is =>
    if o.role = .store then isIdle exit o.slot false is
    else if o.op = .pop then isIdle exit (-1) false is
    else isIdle exit (-1) false (.real o :: is)
  | _ :: is => isEmpty exit is

/-- The line of a handler: of the first line marker among the markers at its start, or else the line
in effect there. -/
def handlerLine (m : Method) (handler : Nat) : Int :=
  let marker := ((m.body.drop handler).takeWhile (!·.isReal)).findSome? fun
    | .line n => some n
    | _ => none
  marker.getD (m.lineAt handler)

/-- Whether an entry of the exception table has an empty handler. -/
def swallows (m : Method) (t : TryCatch) : Bool :=
  match m.labelIndex? t.handler with
  | some i => isEmpty (tryExit? m t) (m.body.drop (i + 1))
  | none => false

/-- Of entries with the same handler and type, the first. Handlers of everything are left out: they
rethrow. -/
def typedEntries (ts : List TryCatch) : List TryCatch :=
  ((ts.filter (·.type != "")).foldl (fun (out : List TryCatch) t =>
    if out.any (fun u => u.handler == t.handler && u.type == t.type) then out else t :: out) []).reverse

def methodRemarks (c : Class) (m : Method) : List Remark :=
  if !m.hasBody then []
  else ((typedEntries m.handlers).filter (swallows m)).map fun t => {
    location := methodLocation c m (handlerLine m ((m.labelIndex? t.handler).getD 0))
    message := "Caught exception type '" ++ Name.simple t.type ++ "' is swallowed without handling" }

def check : Check := info.localCheck fun c => c.methods.flatMap (methodRemarks c)

end JvmLint.SwallowedException
