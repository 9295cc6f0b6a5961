import JvmLint.Input.Load
import JvmLint.Proofs.LayersAlone

/-!
# What a loader returns

A class is left out by the name that its input has it under: a class file has it under the name of the
class itself, a jar under the name of the entry. Of the classes that are not left out, the first of each
name is returned. So an excluded class gets through only if a jar has it under another name.
-/

namespace JvmLint

/-! ## The first class of a name -/

namespace ClassSet

theorem isSome_find? (s : ClassSet) (n : String) : (s.find? n).isSome ↔ n ∈ s.classes.map (·.name) := by
  simp [find?]

theorem nodup_add {s : ClassSet} (more : List Class) (hs : (s.classes.map (·.name)).Nodup) :
    ((s.add more).classes.map (·.name)).Nodup := by
  unfold add
  induction more generalizing s with
  | nil => exact hs
  | cons c more ih =>
    rw [List.foldl_cons]
    apply ih
    by_cases hc : (s.find? c.name).isSome
    · simpa [hc] using hs
    · have hnew : c.name ∉ s.classes.map (·.name) := fun h => hc ((s.isSome_find? c.name).2 h)
      simp only [hc, Bool.false_eq_true, if_false, List.map_append, List.map_cons, List.map_nil]
      refine List.nodup_append.2 ⟨hs, by simp, ?_⟩
      rintro _ ha _ hb rfl
      exact hnew (List.mem_singleton.1 hb ▸ ha)

theorem mem_add {s : ClassSet} {more : List Class} {c : Class} (h : c ∈ (s.add more).classes) :
    c ∈ s.classes ∨ c ∈ more := by
  unfold add at h
  induction more generalizing s with
  | nil => exact .inl h
  | cons d more ih =>
    rw [List.foldl_cons] at h
    rcases ih h with hmem | hmem
    · split at hmem
      · exact .inl hmem
      · rcases List.mem_append.1 hmem with hs | hd
        · exact .inl hs
        · exact .inr (by simp [List.mem_singleton.1 hd])
    · exact .inr (List.mem_cons_of_mem _ hmem)

theorem nodup_ofList (classes : List Class) : ((ofList classes).classes.map (·.name)).Nodup :=
  nodup_add classes List.nodup_nil

theorem mem_ofList {classes : List Class} {c : Class} (h : c ∈ (ofList classes).classes) : c ∈ classes :=
  (mem_add h).resolve_left List.not_mem_nil

theorem name_mem_ofList (classes : List Class) (n : String) :
    n ∈ (ofList classes).classes.map (·.name) ↔ n ∈ classes.map (·.name) := by
  rw [← isSome_find?, isSome_find?_ofList]

end ClassSet

/-! ## The classes of an input -/

/-- The input has the class under the name: a class file under the name of the class itself, a jar under
the name of the entry. -/
def Input.Holds (f : Files) (i : Input) (name : String) (c : Class) : Prop :=
  match i.kind with
  | .classFile => f.parseClass i.path = .ok c ∧ name = c.name
  | .jar => ∃ j, Jar.open_ f i.path = .ok j ∧ name ∈ j.names ∧ j.load name = .ok c

namespace Loader
variable (l : Loader) {f : Files} {i : Input} {c : Class}

theorem mem_loadClass [GlobLibrary] {path : String} :
    c ∈ (l.loadClass f path).classes ↔ f.parseClass path = .ok c ∧ Pattern.anyCovers l.exclude c.name = false := by
  unfold loadClass
  cases hparse : f.parseClass path with
  | error e => simp
  | ok d =>
    by_cases hd : Pattern.anyCovers l.exclude d.name
    · simp only [hd, if_true, Except.ok.injEq]
      constructor
      · simp
      · rintro ⟨rfl, hfree⟩
        simp [hd] at hfree
    · simp only [hd, Bool.false_eq_true, if_false, List.mem_singleton, Except.ok.injEq]
      constructor
      · rintro rfl
        exact ⟨rfl, by simpa using hd⟩
      · exact fun h => h.1.symm

theorem mem_loadEntry [GlobLibrary] {j : Jar} {name : String} :
    c ∈ (l.loadEntry j name).classes ↔ j.load name = .ok c ∧ Pattern.anyCovers l.exclude name = false := by
  unfold loadEntry
  by_cases hname : Pattern.anyCovers l.exclude name
  · simp [hname]
  · cases hload : j.load name with
    | error e => simp [hname]
    | ok d => simp [hname, eq_comm]

theorem mem_loadInput [GlobLibrary] :
    c ∈ (l.loadInput f i).classes ↔ ∃ name, i.Holds f name c ∧ Pattern.anyCovers l.exclude name = false := by
  obtain ⟨path, kind⟩ := i
  cases kind with
  | classFile =>
    simp only [loadInput, Input.Holds, mem_loadClass]
    constructor
    · rintro ⟨hparse, hfree⟩
      exact ⟨c.name, ⟨hparse, rfl⟩, hfree⟩
    · rintro ⟨name, ⟨hparse, rfl⟩, hfree⟩
      exact ⟨hparse, hfree⟩
  | jar =>
    simp only [loadInput, loadJar, Input.Holds]
    cases hopen : Jar.open_ f path with
    | error e => simp
    | ok j => simp [mem_loadEntry, and_assoc]

/-- Every name that is returned is that of a class which some input has and which is not left out. -/
theorem name_mem_load [GlobLibrary] {inputs : List Input} {n : String} :
    n ∈ (l.load f inputs).classes.map (·.name) ↔
      ∃ i ∈ inputs, ∃ name c, i.Holds f name c ∧ c.name = n ∧ Pattern.anyCovers l.exclude name = false := by
  unfold load
  rw [ClassSet.name_mem_ofList]
  simp only [List.mem_map, List.mem_flatMap, exists_exists_and_eq_and, mem_loadInput]
  constructor
  · rintro ⟨c, ⟨i, hi, name, hholds, hfree⟩, hn⟩
    exact ⟨i, hi, name, c, hholds, hn, hfree⟩
  · rintro ⟨i, hi, name, c, hholds, hn, hfree⟩
    exact ⟨c, ⟨i, hi, name, hholds, hfree⟩, hn⟩

theorem holds_of_mem_load [GlobLibrary] {inputs : List Input} (h : c ∈ (l.load f inputs).classes) :
    ∃ i ∈ inputs, ∃ name, i.Holds f name c ∧ Pattern.anyCovers l.exclude name = false := by
  obtain ⟨part, hpart, hc⟩ := List.mem_flatMap.1 (ClassSet.mem_ofList h)
  obtain ⟨i, hi, rfl⟩ := List.mem_map.1 hpart
  exact ⟨i, hi, l.mem_loadInput.1 hc⟩

theorem compileAll_of_ofPatterns [GlobLibrary] {raws : List String} {l : Loader} (h : ofPatterns raws = .ok l) :
    Pattern.compileAll (raws.map classPattern) = .ok l.exclude := by
  unfold ofPatterns at h
  cases hraws : Pattern.compileAll (raws.map classPattern) with
  | error d => rw [hraws] at h; cases h
  | ok ps => rw [hraws] at h; cases h; rfl

end Loader

/-! ## A class in a box -/

/-- A name in the working directory, as a path. -/
theorem Files.read_plain {f : Files} {name : String} {c : Content}
    (hplain : namesOf name = [name] ∧ Path.isAbsolute name = false)
    (hname : name ≠ "" ∧ name ≠ "." ∧ name ≠ ".." ∧ name.utf8ByteSize ≤ 255)
    (hnode : f.node? (f.cwd ++ [name]) = some (.file c)) : f.read name = .ok c.toBytes := by
  obtain ⟨hnames, hrelative⟩ := hplain
  obtain ⟨hempty, hdot, hup, hsize⟩ := hname
  have hfollow : f.follow true 40 f.cwd [name] = .ok (f.cwd ++ [name]) := by
    rw [follow]
    simp [hdot, hup, Nat.not_lt.2 hsize, hnode]
  have hlocate : f.locate true name = .ok (f.cwd ++ [name]) := by
    have hshort : ¬ pathLimit ≤ name.utf8ByteSize := by
      unfold pathLimit
      omega
    simp only [locate, hempty, if_false, hshort, hrelative, Bool.false_eq_true, hnames, hfollow]
  have hfind : f.find true name = .ok (f.cwd ++ [name], .file c) := by
    rw [find, hlocate]
    simp only [bind, Except.bind, hnode]
    rfl
  rw [read, content, hfind]
  rfl

def stubBytes : List UInt8 :=
  [0xca, 0xfe, 0xba, 0xbe, 0, 0, 0, 61, 0, 5, 1, 0, 8] ++ "gen/Stub".toUTF8.toList ++ [7, 0, 1, 1, 0, 16] ++
    "java/lang/Object".toUTF8.toList ++ [7, 0, 3, 0, 0x21, 0, 2, 0, 4, 0, 0, 0, 0, 0, 0, 0, 0]

def stubClass : Class :=
  { name := "gen/Stub", access := ⟨0x21⟩, super := Name.object, major := 61 }

def boxedStub : ArchiveEntry := .stored "BOOT-INF/classes/gen/Stub.class" stubBytes

def boxedTree : Files := {
  cwd := ["work"]
  nodes := [(["work"], .dir), (["work", "app.jar"], .file (.bytes (Archive.encode [boxedStub]))),
    (["work", "Stub.class"], .file (.bytes stubBytes))] }

def boxedInputs : List Input := [⟨"Stub.class", .classFile⟩, ⟨"app.jar", .jar⟩]

def boxedJar : Jar := { path := "app.jar", classes := [("BOOT-INF/classes/gen/Stub", boxedStub)] }

def boxedClass : Class := { stubClass with origin := "app.jar!BOOT-INF/classes/gen/Stub.class" }

theorem parse_stubBytes : ClassFile.parse stubBytes = .ok stubClass := by
  decide +kernel

theorem open_boxedTree : Jar.open_ boxedTree "app.jar" = .ok boxedJar := by
  have hread : boxedTree.read "app.jar" = .ok (Archive.encode [boxedStub]) :=
    Files.read_plain (c := .bytes (Archive.encode [boxedStub])) (by decide) (by decide) rfl
  have hdecode : Archive.decode "app.jar" (Archive.encode [boxedStub]) = .ok [boxedStub] := by decide +kernel
  have hclasses : Jar.classesOf [boxedStub] = [("BOOT-INF/classes/gen/Stub", boxedStub)] := by
    have hname : Jar.className? boxedStub = some "BOOT-INF/classes/gen/Stub" := by decide
    simp [Jar.classesOf, hname]
  rw [Jar.open_, hread]
  simp only [hdecode, hclasses, boxedJar]

namespace Loader

def genLoader : Loader := ⟨[⟨"gen/*", (Glob.compile "gen/*").toOption⟩]⟩

theorem ofPatterns_gen : ofPatterns ["gen.*"] = .ok genLoader := rfl

theorem loadClass_boxedTree : genLoader.loadClass boxedTree "Stub.class" = {} := by
  have hread : boxedTree.read "Stub.class" = .ok stubBytes :=
    Files.read_plain (c := .bytes stubBytes) (by decide) (by decide) rfl
  have hcovered : Pattern.anyCovers genLoader.exclude "gen/Stub" = true := by decide
  simp only [loadClass, Files.parseClass, hread, parse_stubBytes]
  exact if_pos hcovered

theorem load_boxedTree : genLoader.load boxedTree boxedInputs = { classes := [boxedClass] } := by
  have hentry : genLoader.loadEntry boxedJar "BOOT-INF/classes/gen/Stub" = { classes := [boxedClass] } := by
    decide +kernel
  simp only [load, boxedInputs, loadInput, List.map_cons, List.map_nil, loadClass_boxedTree, loadJar, open_boxedTree,
    Jar.names, boxedJar] at hentry ⊢
  rw [hentry]
  rfl

/-- The names of the returned classes are pairwise distinct, and they are those of the classes that some
input has under a name that the patterns do not cover. A returned class whose own name is covered comes
from a jar that has it under another name, which is not. -/
theorem load_excludes [GlobLibrary] {raws : List String} {l : Loader} (hl : ofPatterns raws = .ok l) (f : Files)
    (inputs : List Input) :
    Pattern.compileAll (raws.map classPattern) = .ok l.exclude ∧
    ((l.load f inputs).classes.map (·.name)).Nodup ∧
    (∀ n, n ∈ (l.load f inputs).classes.map (·.name) ↔
      ∃ i ∈ inputs, ∃ name c, i.Holds f name c ∧ c.name = n ∧ Pattern.anyCovers l.exclude name = false) ∧
    ∀ c ∈ (l.load f inputs).classes, Pattern.anyCovers l.exclude c.name = true →
      ∃ i ∈ inputs, i.kind = .jar ∧
        ∃ name, i.Holds f name c ∧ name ≠ c.name ∧ Pattern.anyCovers l.exclude name = false := by
  refine ⟨compileAll_of_ofPatterns hl, ClassSet.nodup_ofList _, fun n => l.name_mem_load, ?_⟩
  intro c hc hcovered
  obtain ⟨i, hi, name, hholds, hfree⟩ := l.holds_of_mem_load hc
  have hother : name ≠ c.name := by
    rintro rfl
    rw [hcovered] at hfree
    cases hfree
  refine ⟨i, hi, ?_, name, hholds, hother, hfree⟩
  cases hkind : i.kind with
  | jar => rfl
  | classFile =>
    simp only [Input.Holds, hkind] at hholds
    exact absurd hholds.2 hother

/-- The jar has the excluded class under the name of its directory. -/
theorem load_excludes_boxedTree :
    ∃ l, ofPatterns ["gen.*"] = .ok l ∧
      ((l.load boxedTree boxedInputs).classes.map (·.name)).Nodup ∧
      ∃ c ∈ (l.load boxedTree boxedInputs).classes, Pattern.anyCovers l.exclude c.name = true ∧
        ∃ i ∈ boxedInputs, i.kind = .jar ∧
          ∃ name, i.Holds boxedTree name c ∧ name ≠ c.name ∧ Pattern.anyCovers l.exclude name = false := by
  obtain ⟨_, hdistinct, _, hexcluded⟩ := load_excludes ofPatterns_gen boxedTree boxedInputs
  have hmem : boxedClass ∈ (genLoader.load boxedTree boxedInputs).classes := by simp [load_boxedTree]
  have hcovered : Pattern.anyCovers genLoader.exclude boxedClass.name = true := by decide
  exact ⟨genLoader, ofPatterns_gen, hdistinct, boxedClass, hmem, hcovered, hexcluded boxedClass hmem hcovered⟩

/-- The same class is left out as a file and returned from the jar, although the patterns cover its name. -/
theorem boxedTree_returns_excluded :
    ∃ l, ofPatterns ["gen.*"] = .ok l ∧
      (l.load boxedTree [⟨"Stub.class", .classFile⟩]).classes = [] ∧
      ∃ c ∈ (l.load boxedTree boxedInputs).classes, c.name = "gen/Stub" ∧ Pattern.anyCovers l.exclude c.name = true := by
  refine ⟨genLoader, ofPatterns_gen, ?_, boxedClass, by simp [load_boxedTree], rfl, by decide⟩
  simp only [load, loadInput, List.map_cons, List.map_nil, loadClass_boxedTree]
  rfl

end Loader

end JvmLint
