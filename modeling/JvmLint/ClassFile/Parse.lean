import JvmLint.ClassFile.Code

/-!
# Parsing class files

A class file gives a whole class or a defect. What comes after the class in the data is ignored,
and attributes that no analysis needs are skipped whatever they hold.
-/

namespace JvmLint.ClassFile

def magic : Nat := 0xCAFEBABE

def scanField (pool : ConstantPool) : Scan Field := do
  let access ← Scan.u2
  let name ← Scan.constant (pool.utf8 (← Scan.u2))
  let desc ← Scan.constant (pool.utf8 (← Scan.u2))
  let _ ← Scan.checked (Scan.counted (scanAttribute pool))
  return { name, desc, access := ⟨UInt16.ofNat access⟩ }

def scanExceptions (pool : ConstantPool) : Scan (List String) :=
  Scan.checked (Scan.counted (do Scan.constant (pool.className (← Scan.u2))))

/-- Takes up one attribute of a method. The last code wins; exceptions add up. -/
def scanMethodAttribute (pool : ConstantPool) (m : Method) : Scan Method := do
  let (name, body) ← scanAttribute pool
  if name = "Code" then
    let code ← Scan.noting "method" m.signature (Scan.within body (scanCode pool))
    return { m with
      body := code.body
      locals := m.locals ++ code.locals
      handlers := m.handlers ++ code.handlers }
  else if name = "Exceptions" then
    return { m with exceptions := m.exceptions ++ (← Scan.within body (scanExceptions pool)) }
  else return m

def scanMethod (pool : ConstantPool) : Scan Method := do
  let access ← Scan.u2
  let name ← Scan.constant (pool.utf8 (← Scan.u2))
  let desc ← Scan.constant (pool.utf8 (← Scan.u2))
  Scan.checked do
    Scan.iterate (scanMethodAttribute pool) (← Scan.u2) { name, desc, access := ⟨UInt16.ofNat access⟩ }

/-- Takes up one attribute of a class. The body of a name is not checked: cut off, it is number 0. -/
def scanClassAttribute (pool : ConstantPool) (c : Class) : Scan Class := do
  let (name, body) ← scanAttribute pool
  if name = "SourceFile" then
    return { c with sourceFile := ← Scan.within body (do Scan.constant (pool.utf8 (← Scan.u2))) }
  else return c

def scanSuper (pool : ConstantPool) : Scan String := do
  let i ← Scan.u2
  if i = 0 then return "" else Scan.constant (pool.className i)

def scanMembers (pool : ConstantPool) (major access : Nat) (name : String) : Scan Class :=
  Scan.checkedAs (·.at "class" name) do
    let super ← scanSuper pool
    let interfaces ← Scan.counted (do Scan.constant (pool.className (← Scan.u2)))
    let fields ← Scan.counted (Scan.noting "class" name (scanField pool))
    let methods ← Scan.counted (Scan.noting "class" name (scanMethod pool))
    Scan.iterate (scanClassAttribute pool) (← Scan.u2)
      { name, super, interfaces, fields, methods
        access := ⟨UInt16.ofNat access⟩
        major := UInt16.ofNat major }

def scanClass : Scan Class := do
  if (← Scan.checked Scan.u4) ≠ magic then Scan.reject .badMagic
  let (major, pool) ← Scan.checked do
    Scan.skip 2
    return (← Scan.u2, ← ConstantPool.scan)
  let access ← Scan.u2
  let name ← Scan.constant (pool.className (← Scan.u2))
  scanMembers pool major access name

def parse (data : List UInt8) : Except Malformed Class :=
  match scanClass { rest := data } with
  | .ok (c, _) => .ok c
  | .error e => .error e

end JvmLint.ClassFile
