import JvmLint.Proofs.Blanks
import JvmLint.Proofs.DeclaredRules
import JvmLint.Proofs.PathLaws

/-!
# Places of findings in a log

A finding names its place in one text, and the log takes the line off its end again. The line is what stands behind the
last colon: names may have colons and digits of their own, but the digits of the line have none.
-/

namespace JvmLint

namespace Sarif

/-! ## Lines -/

def EndsInLine (s : String) : Prop :=
  ∃ name digits, s.toList = name ++ ':' :: digits ∧ digits ≠ [] ∧ ∀ d ∈ digits, d.isDigit = true

variable {s name : String} {n : Nat}

theorem notMem_of_isDigit {digits : List Char} (h : ∀ d ∈ digits, d.isDigit = true) : ':' ∉ digits := by
  intro hcolon
  exact absurd (h ':' hcolon) (by decide)

theorem endsInLine_iff : EndsInLine s ↔
    (Text.cutLast ':' s.toList).any (fun parts => !parts.2.isEmpty && parts.2.all Char.isDigit) = true := by
  constructor
  · intro ⟨name, digits, hs, hne, hdigits⟩
    rw [hs, Text.cutLast_append (notMem_of_isDigit hdigits)]
    simpa [hne] using hdigits
  · intro h
    cases hcut : Text.cutLast ':' s.toList with
    | none =>
      rw [hcut] at h
      cases h
    | some parts =>
      obtain ⟨name, digits⟩ := parts
      rw [hcut, Option.any_some, Bool.and_eq_true, Bool.not_eq_true', List.isEmpty_eq_false_iff, List.all_eq_true] at h
      exact ⟨name, digits, (Text.cutLast_eq_some hcut).1, h⟩

instance (s : String) : Decidable (EndsInLine s) := decidable_of_iff _ endsInLine_iff.symm

theorem ofLocation_of_not_endsInLine (h : ¬ EndsInLine s) : Place.ofLocation s = { name := s, line := none } := by
  rw [endsInLine_iff] at h
  unfold Place.ofLocation
  cases hcut : Text.cutLast ':' s.toList with
  | none => rfl
  | some parts =>
    obtain ⟨name, digits⟩ := parts
    have hother : (digits.isEmpty || !digits.all Char.isDigit) = true := by
      simpa [hcut, or_iff_not_imp_left] using h
    dsimp only
    rw [hother, Bool.true_or, if_pos rfl]

theorem word?_toDigits (h : n < Nat.pow 2 63) : word? (Nat.toDigits 10 n) = some n := by
  have hvalue : (Nat.toDigits 10 n).foldl (fun n c => 10 * n + (c.toNat - 48)) 0 = n := Nat.ofDigitChars_ten_toDigits
  rw [word?, hvalue]
  exact if_pos h

theorem ofLocation_line (hname : '\n' ∉ name.toList) (hpos : 0 < n) (hword : n < Nat.pow 2 63) :
    Place.ofLocation (name ++ ":" ++ toString n) = { name, line := some n } := by
  have hdigits : ∀ d ∈ Nat.toDigits 10 n, d.isDigit = true :=
    fun d hd => Nat.isDigit_of_mem_toDigits (by decide) (by decide) hd
  have htext : (name ++ ":" ++ toString n).toList = name.toList ++ ':' :: Nat.toDigits 10 n := by
    rw [String.toList_append, String.toList_append, Nat.toString_eq_ofList_toDigits, String.toList_ofList]
    simp
  unfold Place.ofLocation
  rw [htext, Text.cutLast_append (notMem_of_isDigit hdigits)]
  have hshape :
      ((Nat.toDigits 10 n).isEmpty || !(Nat.toDigits 10 n).all Char.isDigit || name.toList.contains '\n') = false := by
    simp [Nat.toDigits_ne_nil, hname, List.all_eq_true.2 hdigits]
  dsimp only
  rw [hshape, word?_toDigits hword, String.ofList_toList]
  simp [hpos]

/-! ## Locations -/

def namesIn (location : JsonDoc) : List String :=
  (location.itemsAt ["logicalLocations"]).filterMap (·.textAt? ["fullyQualifiedName"])

def regionIn (location : JsonDoc) : Option JsonDoc := location.at? ["physicalLocation", "region"]

theorem namesIn_document (p : Place) : namesIn p.document = [p.name] := by
  obtain ⟨name, line⟩ := p
  cases line <;> rfl

theorem regionIn_document (p : Place) :
    regionIn p.document = p.line.map fun n => .object [("startLine", .int n)] := by
  obtain ⟨name, line⟩ := p
  cases line <;> rfl

theorem ofLocation_methodLocation {c : Class} {m : Method} {line : Int64} (hclass : '\n' ∉ c.name.toList)
    (hmethod : '\n' ∉ m.name.toList) (hline : 0 < line) :
    Place.ofLocation (methodLocation c m line.toInt) =
      { name := Text.swap c.name '/' '.' ++ "." ++ m.name, line := some line.toInt.toNat } := by
  have hpos : 0 < line.toInt := Int64.lt_iff_toInt_lt.1 hline
  obtain ⟨n, hn⟩ := Int.eq_ofNat_of_zero_le (Int.le_of_lt hpos)
  have hword : n < Nat.pow 2 63 := by
    have hlt := line.toInt_lt
    rw [hn] at hlt
    show n < 9223372036854775808
    omega
  have hname : '\n' ∉ (Text.swap c.name '/' '.' ++ "." ++ m.name).toList := by
    simp [Text.mem_swap, hclass, hmethod]
  have hlocation : methodLocation c m line.toInt = Text.swap c.name '/' '.' ++ "." ++ m.name ++ ":" ++ toString n := by
    rw [methodLocation, if_pos hpos, hn]
    rfl
  rw [hlocation, ofLocation_line hname (by omega) hword, hn]
  rfl

/-- The place of a method is read back as its name and its line. A text that ends in no line is a name as a whole. -/
theorem location_read_back {c : Class} {m : Method} {line : Int64} {s : String} (hclass : '\n' ∉ c.name.toList)
    (hmethod : '\n' ∉ m.name.toList) (hline : 0 < line) (hs : ¬ EndsInLine s) :
    (namesIn (Place.ofLocation (methodLocation c m line.toInt)).document = [Text.swap c.name '/' '.' ++ "." ++ m.name] ∧
      regionIn (Place.ofLocation (methodLocation c m line.toInt)).document =
        some (.object [("startLine", .int line.toInt)])) ∧
    namesIn (Place.ofLocation s).document = [s] ∧ regionIn (Place.ofLocation s).document = none := by
  have hpos : 0 ≤ line.toInt := Int.le_of_lt (Int64.lt_iff_toInt_lt.1 hline)
  rw [namesIn_document, namesIn_document, regionIn_document, regionIn_document,
    ofLocation_methodLocation hclass hmethod hline, ofLocation_of_not_endsInLine hs]
  refine ⟨⟨rfl, ?_⟩, rfl, rfl⟩
  rw [Option.map_some, Int.toNat_of_nonneg hpos]

theorem location_read_back_colons :
    '\n' ∉ "app/Odd:12".toList ∧ '\n' ∉ "<init>:7".toList ∧ (0 : Int64) < 42 ∧ ¬ EndsInLine "app.Odd:12 (lib.jar:)" ∧
      methodLocation { (default : Class) with name := "app/Odd:12" } { (default : Method) with name := "<init>:7" } 42 =
        "app.Odd:12.<init>:7:42" ∧
      (namesIn (Place.ofLocation "app.Odd:12.<init>:7:42").document = ["app.Odd:12.<init>:7"] ∧
        regionIn (Place.ofLocation "app.Odd:12.<init>:7:42").document = some (.object [("startLine", .int 42)])) ∧
      namesIn (Place.ofLocation "app.Odd:12 (lib.jar:)").document = ["app.Odd:12 (lib.jar:)"] ∧
      regionIn (Place.ofLocation "app.Odd:12 (lib.jar:)").document = none := by
  have hclass : '\n' ∉ "app/Odd:12".toList := by decide
  have hmethod : '\n' ∉ "<init>:7".toList := by decide
  have hs : ¬ EndsInLine "app.Odd:12 (lib.jar:)" := by decide
  have hline : (0 : Int64) < 42 := by decide
  have hread := location_read_back (c := { (default : Class) with name := "app/Odd:12" })
    (m := { (default : Method) with name := "<init>:7" }) hclass hmethod hline hs
  exact ⟨hclass, hmethod, hline, hs, by decide, hread⟩

end Sarif

end JvmLint
