import JvmLint.Toml.Value

/-!
# Records

Values written as tables of named fields and read back from them. Reading is total: a field that is
missing or has another type reads as zero, empty or false.
-/

namespace JvmLint

class ToRecord (α : Type) where
  record : α → Toml

class OfRecord (α : Type) where
  ofRecord : Toml → α

export ToRecord (record)
export OfRecord (ofRecord)

def entry {α : Type} [ToRecord α] (key : String) (value : α) : String × Toml := (key, record value)

def Toml.part {α : Type} [OfRecord α] (t : Toml) (key : String) : α :=
  ofRecord (((t.asTable.getD []).lookup key).getD (.array []))

instance : ToRecord String := ⟨.string⟩
instance : ToRecord Int := ⟨.int⟩
instance : ToRecord Nat := ⟨fun n => .int n⟩
instance : ToRecord Bool := ⟨.bool⟩
instance : ToRecord Float := ⟨.float⟩
instance : ToRecord Toml := ⟨id⟩
instance {α : Type} [ToRecord α] : ToRecord (List α) := ⟨fun l => .array (l.map record)⟩

instance : OfRecord Toml := ⟨id⟩
instance : OfRecord String := ⟨fun t => t.asString.getD ""⟩
instance : OfRecord Int := ⟨fun t => t.asInt.getD 0⟩
instance : OfRecord Nat := ⟨fun t => (t.asInt.getD 0).toNat⟩
instance : OfRecord Bool := ⟨fun t => t.asBool.getD false⟩

instance : OfRecord Float := ⟨fun
  | .float f => f
  | .int n => Float.ofInt n
  | _ => 0⟩

instance {α : Type} [OfRecord α] : OfRecord (List α) := ⟨fun
  | .array items => items.map ofRecord
  | _ => []⟩

instance {α : Type} [OfRecord α] : OfRecord (List (String × α)) := ⟨fun t =>
  (t.asTable.getD []).map fun (k, v) => (k, ofRecord v)⟩

end JvmLint
