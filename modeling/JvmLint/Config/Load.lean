import JvmLint.Config.Fields
import JvmLint.Config.Validate
import JvmLint.Toml.Parse

/-!
# Loading a configuration
-/

namespace JvmLint

inductive ConfigFault where
  /-- The file cannot be read. -/
  | file (fault : Fault)
  /-- The text is no configuration file, or a field has the wrong type. -/
  | unreadable
  | invalid (defect : ConfigDefect)

def ConfigFault.fault : ConfigFault → Fault
  | file f => f
  | unreadable => .plain "toml: the configuration cannot be read"
  | invalid d => d.fault

namespace Config

def prepare [GlobLibrary] (env : Environment) (c : Config) : Except ConfigFault Config :=
  (finish (applyEnvironment env c)).mapError .invalid

def ofTableOrFault (t : Table) : Except ConfigFault Config :=
  match ofTable t with
  | some c => .ok c
  | none => .error .unreadable

def ofText [GlobLibrary] (env : Environment) (s : String) : Except ConfigFault Config :=
  match Toml.parse? s with
  | some t => do prepare env (← ofTableOrFault t)
  | none => .error .unreadable

end Config

end JvmLint
