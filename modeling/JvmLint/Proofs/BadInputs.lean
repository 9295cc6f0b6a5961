import JvmLint.Analysis
import JvmLint.Proofs.JarEntries
import JvmLint.Proofs.LoadedClasses
import Mathlib.Data.List.Flatten
import Mathlib.Data.List.Perm.Basic

/-!
# Bad inputs

An input that cannot be read, or an entry of a jar that holds no class, gives a failure and no class.
Put between good ones, in the list of inputs or in a jar, it leaves the classes and their order alone,
and of the failures it adds only its own.
-/

namespace JvmLint

/-! ## Additions that come to nothing -/

section
variable {α β : Type} {xs ys zs : List α}

theorem flatMap_of_sublist {g : α → List β} (hsub : xs.Sublist ys) (hperm : ys.Perm (xs ++ zs))
    (hg : ∀ z ∈ zs, g z = []) : ys.flatMap g = xs.flatMap g := by
  have hnil : zs.flatMap g = [] := List.flatMap_eq_nil_iff.2 hg
  have hlength : (ys.flatMap g).length = (xs.flatMap g).length := by
    rw [(hperm.flatMap_right g).length_eq, List.flatMap_append, hnil, List.append_nil]
  exact ((hsub.flatMap g).eq_of_length hlength.symm).symm

end

/-! ## Entries of a jar -/

def Files.HasEntries (f : Files) (path : String) (es : List ArchiveEntry) : Prop :=
  ∃ bytes, f.read path = .ok bytes ∧ Archive.decode path bytes = .ok es

theorem Files.HasEntries.open_ {f : Files} {path : String} {es : List ArchiveEntry} (h : f.HasEntries path es) :
    Jar.open_ f path = .ok { path, classes := Jar.classesOf es } := by
  obtain ⟨bytes, hread, hdecode⟩ := h
  rw [Jar.open_, hread]
  simp only [hdecode]

/-- No class comes out of the entry: it cannot be unpacked, or what is in it is no class file. -/
def ArchiveEntry.Broken (e : ArchiveEntry) : Prop :=
  ∀ data, e.unpack = .ok data → ∃ d, ClassFile.parse data = .error d

def Input.Unreadable (f : Files) (i : Input) : Prop :=
  match i.kind with
  | .classFile => ∃ e, f.parseClass i.path = .error e
  | .jar => ∃ e, Jar.open_ f i.path = .error e

namespace Loader
variable (l : Loader)

def loadNamed [GlobLibrary] (path : String) (p : String × ArchiveEntry) : Loaded :=
  l.loadEntry { path, classes := [p] } p.1

theorem loadEntry_classesOf [GlobLibrary] (path : String) {es : List ArchiveEntry} {p : String × ArchiveEntry}
    (hp : p ∈ Jar.classesOf es) : l.loadEntry { path, classes := Jar.classesOf es } p.1 = l.loadNamed path p := by
  have hself : [p].lookup p.1 = some p.2 := List.lookup_cons_self
  unfold loadNamed loadEntry Jar.load
  rw [Jar.lookup_classesOf hp, hself]
  rfl

theorem loadJar_of_hasEntries [GlobLibrary] {f : Files} {path : String} {es : List ArchiveEntry}
    (h : f.HasEntries path es) :
    l.loadJar f path =
      { classes := (Jar.classesOf es).flatMap fun p => (l.loadNamed path p).classes
        failures := (Jar.classesOf es).flatMap fun p => (l.loadNamed path p).failures } := by
  have hparts : (Jar.classesOf es).map (fun p => l.loadEntry { path, classes := Jar.classesOf es } p.1) =
      (Jar.classesOf es).map (l.loadNamed path) :=
    List.map_congr_left fun p hp => l.loadEntry_classesOf path hp
  rw [loadJar, h.open_]
  simp only [Jar.names, List.map_map, Function.comp_def, hparts, List.flatMap_map]

theorem loadNamed_broken [GlobLibrary] (path : String) {name : String} {e : ArchiveEntry}
    (hname : Jar.className? e = some name)
    (hfree : Pattern.anyCovers l.exclude name = false) (hbroken : e.Broken) :
    ∃ error, l.loadNamed path (name, e) = { failures := [{ path := path ++ "!" ++ e.name, error }] } := by
  have hplace : path ++ "!" ++ name ++ ".class" = path ++ "!" ++ e.name := by
    rw [Jar.name_of_className? hname]
    simp [String.append_assoc]
  have hload : ∃ fault, Jar.load { path, classes := [(name, e)] } name = .error fault := by
    simp only [Jar.load, List.lookup_cons_self, Jar.unpack, Bool.false_eq_true, if_false]
    cases hunpack : e.unpack with
    | error fault => exact ⟨_, rfl⟩
    | ok data =>
      obtain ⟨d, hd⟩ := hbroken data hunpack
      simp only [hd]
      exact ⟨_, rfl⟩
  obtain ⟨fault, hfault⟩ := hload
  refine ⟨fault.text, ?_⟩
  simp only [loadNamed, loadEntry, hfree, Bool.false_eq_true, if_false, hfault, hplace]

/-! ## Changed inputs -/

/-- An entry that a jar lists, that is not excluded, and that no class comes out of. -/
def Spoils [GlobLibrary] (e : ArchiveEntry) : Prop :=
  ∃ name, Jar.className? e = some name ∧ Pattern.anyCovers l.exclude name = false ∧ e.Broken

/-- What may have become of an input: nothing, or it is a jar and has got more entries, anywhere between
the others and under new names. -/
inductive Grown [GlobLibrary] (f f' : Files) : Input → List ArchiveEntry → Prop
  | same {i : Input} : f'.read i.path = f.read i.path → Grown f f' i []
  | jar {path : String} {es es' added : List ArchiveEntry} : f.HasEntries path es → f'.HasEntries path es' →
      es.Sublist es' → es'.Perm (es ++ added) → Jar.NewNames es added → (∀ e ∈ added, l.Spoils e) →
      Grown f f' ⟨path, .jar⟩ added

def places (i : Input) (added : List ArchiveEntry) : List String := added.map fun e => i.path ++ "!" ++ e.name

variable {l} {f f' : Files}

theorem loadInput_same [GlobLibrary] {i : Input} (h : f'.read i.path = f.read i.path) :
    l.loadInput f' i = l.loadInput f i := by
  unfold loadInput loadClass loadJar Files.parseClass Jar.open_
  rw [h]

theorem named_spoils [GlobLibrary] (path : String) {added : List ArchiveEntry} (h : ∀ e ∈ added, l.Spoils e) :
    (∀ p ∈ Jar.named added, (l.loadNamed path p).classes = []) ∧
      ((Jar.named added).flatMap fun p => (l.loadNamed path p).failures).map (·.path) = places ⟨path, .jar⟩ added := by
  induction added with
  | nil => exact ⟨by simp [Jar.named], rfl⟩
  | cons e added ih =>
    obtain ⟨hclasses, hplaces⟩ := ih fun d hd => h d (List.mem_cons_of_mem _ hd)
    obtain ⟨name, hname, hfree, hbroken⟩ := h e (by simp)
    obtain ⟨error, herror⟩ := l.loadNamed_broken path hname hfree hbroken
    have hnamed : Jar.named (e :: added) = (name, e) :: Jar.named added := by simp [Jar.named, hname]
    rw [hnamed]
    constructor
    · simpa [herror] using hclasses
    · rw [List.flatMap_cons, herror, List.map_append, hplaces]
      rfl

/-- A changed input gives the same classes, and besides the same failures one for each added entry. -/
theorem Grown.loadInput [GlobLibrary] {i : Input} {added : List ArchiveEntry} (h : l.Grown f f' i added) :
    (l.loadInput f' i).classes = (l.loadInput f i).classes ∧
    (l.loadInput f i).failures.Sublist (l.loadInput f' i).failures ∧
    ∃ extra, (l.loadInput f' i).failures.Perm ((l.loadInput f i).failures ++ extra) ∧
      extra.map (·.path) = places i added := by
  cases h with
  | same h =>
    rw [loadInput_same h]
    exact ⟨rfl, .refl _, [], by simp, rfl⟩
  | @jar path es es' added hes hes' hsub hperm hnew hspoils =>
    have hclasses := hnew.sublist_classesOf hsub hperm
    have hnamed := hnew.perm_classesOf hsub hperm
    obtain ⟨hnone, hplaces⟩ := named_spoils path hspoils
    simp only [Loader.loadInput, loadJar_of_hasEntries l hes, loadJar_of_hasEntries l hes']
    refine ⟨flatMap_of_sublist hclasses hnamed hnone, hclasses.flatMap _, _, ?_, hplaces⟩
    rw [← List.flatMap_append]
    exact hnamed.flatMap_right _

theorem loadInput_unreadable [GlobLibrary] {i : Input} (h : i.Unreadable f) :
    ∃ error, l.loadInput f i = { failures := [{ path := i.path, error }] } := by
  obtain ⟨path, kind⟩ := i
  cases kind with
  | classFile =>
    obtain ⟨e, he⟩ := h
    exact ⟨e.text, by simp [loadInput, loadClass, he]⟩
  | jar =>
    obtain ⟨e, he⟩ := h
    exact ⟨e.text, by simp [loadInput, loadJar, he]⟩

theorem paths_unreadable [GlobLibrary] {bad : List Input} (h : ∀ i ∈ bad, i.Unreadable f) :
    (bad.flatMap fun i => (l.loadInput f i).failures).map (·.path) = bad.map (·.path) := by
  induction bad with
  | nil => rfl
  | cons i bad ih =>
    obtain ⟨error, herror⟩ := loadInput_unreadable (l := l) (h i (by simp))
    rw [List.flatMap_cons, List.map_append, ih fun j hj => h j (List.mem_cons_of_mem _ hj), herror]
    rfl

/-- The failures of changed inputs, input by input. -/
theorem failures_grown [GlobLibrary] {inputs : List Input} {added : Input → List ArchiveEntry}
    (h : ∀ i ∈ inputs, l.Grown f f' i (added i)) :
    ∃ extra, (inputs.flatMap fun i => (l.loadInput f' i).failures).Perm
        ((inputs.flatMap fun i => (l.loadInput f i).failures) ++ extra) ∧
      extra.map (·.path) = inputs.flatMap fun i => places i (added i) := by
  induction inputs with
  | nil => exact ⟨[], .refl _, rfl⟩
  | cons i inputs ih =>
    obtain ⟨rest, hrest, hplaces⟩ := ih fun j hj => h j (List.mem_cons_of_mem _ hj)
    obtain ⟨-, -, own, hown, hplace⟩ := (h i (by simp)).loadInput
    refine ⟨own ++ rest, ?_, by simp [hplace, hplaces]⟩
    simp only [List.flatMap_cons]
    refine (hown.append hrest).trans ?_
    simp only [List.append_assoc]
    exact (List.perm_append_comm_assoc ..).append_left _

/-! ## A spoiled tree -/

def halfEntry : ArchiveEntry := .stored "lib/Half.class" (stubBytes.take 9)

def tornEntry : ArchiveEntry := { ArchiveEntry.stored "lib/Torn.class" stubBytes with lost := some .notArchive }

def spoiledJar : List UInt8 :=
  (Archive.encode [halfEntry, tornEntry, boxedStub]).set (Archive.entryRecord halfEntry).length 0

def spoiledTree : Files := {
  cwd := ["work"]
  nodes := [(["work"], .dir), (["work", "app.jar"], .file (.bytes spoiledJar)),
    (["work", "Stub.class"], .file (.bytes stubBytes)), (["work", "Cut.class"], .file (.bytes (stubBytes.take 9))),
    (["work", "notes.jar"], .file (.bytes [0x68, 0x69]))] }

def spoiledInputs : List Input :=
  [⟨"Cut.class", .classFile⟩, ⟨"Stub.class", .classFile⟩, ⟨"app.jar", .jar⟩, ⟨"notes.jar", .jar⟩]

theorem parse_cutBytes : ∃ d, ClassFile.parse (stubBytes.take 9) = .error d := by
  have hnone : (ClassFile.parse (stubBytes.take 9)).toOption = none := by decide +kernel
  cases hparse : ClassFile.parse (stubBytes.take 9) with
  | error d => exact ⟨d, rfl⟩
  | ok c => rw [hparse] at hnone; cases hnone

theorem halfEntry_spoils : genLoader.Spoils halfEntry := by
  refine ⟨"lib/Half", by decide, by decide, fun data hdata => ?_⟩
  have hunpack : halfEntry.unpack = .ok (stubBytes.take 9) := by decide +kernel
  obtain rfl : stubBytes.take 9 = data := Except.ok.inj (hunpack.symm.trans hdata)
  exact parse_cutBytes

theorem tornEntry_spoils : genLoader.Spoils tornEntry := by
  refine ⟨"lib/Torn", by decide, by decide, fun data hdata => ?_⟩
  cases hdata

theorem grown_spoiledTree {i : Input} (hi : i ∈ boxedInputs) :
    genLoader.Grown boxedTree spoiledTree i (if i.kind = .jar then [halfEntry, tornEntry] else []) := by
  have hcases : i = ⟨"Stub.class", .classFile⟩ ∨ i = ⟨"app.jar", .jar⟩ := by simpa [boxedInputs] using hi
  rcases hcases with rfl | rfl
  · apply Grown.same
    rw [Files.read_plain (f := spoiledTree) (c := .bytes stubBytes) (by decide) (by decide) rfl,
      Files.read_plain (f := boxedTree) (c := .bytes stubBytes) (by decide) (by decide) rfl]
  · have hbefore : boxedTree.HasEntries "app.jar" [boxedStub] :=
      ⟨_, Files.read_plain (by decide) (by decide) rfl, by decide +kernel⟩
    have hafter : spoiledTree.HasEntries "app.jar" [halfEntry, tornEntry, boxedStub] :=
      ⟨_, Files.read_plain (by decide) (by decide) rfl, by decide +kernel⟩
    have hperm : [halfEntry, tornEntry, boxedStub].Perm ([boxedStub] ++ [halfEntry, tornEntry]) :=
      @List.perm_append_comm _ [halfEntry, tornEntry] [boxedStub]
    refine Grown.jar hbefore hafter (.cons _ (.cons _ (.refl _))) hperm ⟨by decide, by decide, by decide⟩ ?_
    intro e he
    rcases List.mem_pair.1 he with rfl | rfl
    · exact halfEntry_spoils
    · exact tornEntry_spoils

theorem unreadable_spoiledTree {i : Input} (hi : i ∈ [⟨"Cut.class", .classFile⟩, ⟨"notes.jar", .jar⟩]) :
    i.Unreadable spoiledTree := by
  have hcases : i = ⟨"Cut.class", .classFile⟩ ∨ i = ⟨"notes.jar", .jar⟩ := by simpa using hi
  rcases hcases with rfl | rfl
  · have hread : spoiledTree.read "Cut.class" = .ok (stubBytes.take 9) :=
      Files.read_plain (c := .bytes (stubBytes.take 9)) (by decide) (by decide) rfl
    obtain ⟨d, hd⟩ := parse_cutBytes
    exact ⟨d.fault.addDetail "path" "Cut.class", by rw [Files.parseClass, hread]; simp only [hd]⟩
  · have hread : spoiledTree.read "notes.jar" = .ok [0x68, 0x69] :=
      Files.read_plain (c := .bytes [0x68, 0x69]) (by decide) (by decide) rfl
    have hdecode : Archive.decode "notes.jar" [0x68, 0x69] = .error .notArchive := by decide
    simp only [Input.Unreadable, Jar.open_, hread, hdecode]
    exact ⟨_, rfl⟩

/-- Inputs that cannot be read, put anywhere between others, and entries without a class, put anywhere
into jars under new names, leave the classes and their order alone. All failures there were are still
there, in order, and there is one more for each input and each entry put in, with its place. An analysis
of the classes, with whatever else its questions can be answered from, comes out the same. -/
theorem load_isolates [GlobLibrary] (l : Loader) {f f' : Files} {inputs inputs' bad : List Input}
    {added : Input → List ArchiveEntry}
    (hsub : inputs.Sublist inputs') (hperm : inputs'.Perm (inputs ++ bad)) (hbad : ∀ i ∈ bad, i.Unreadable f')
    (hgrown : ∀ i ∈ inputs, l.Grown f f' i (added i)) :
    (l.load f' inputs').classes = (l.load f inputs).classes ∧
    (l.load f inputs).failures.Sublist (l.load f' inputs').failures ∧
    (∃ extra, (l.load f' inputs').failures.Perm ((l.load f inputs).failures ++ extra) ∧
      extra.map (·.path) = (inputs.flatMap fun i => places i (added i)) ++ bad.map (·.path)) ∧
    ∀ (rest : Source) (reach : Nat) (selected : List Check) (cancelled : Bool) (r : Resolver),
      Analysis.run (.chain [(ClassSet.ofList (l.load f' inputs').classes).source, rest]) reach
          ((l.load f' inputs').classes.map some) selected cancelled r =
        Analysis.run (.chain [(ClassSet.ofList (l.load f inputs).classes).source, rest]) reach
          ((l.load f inputs).classes.map some) selected cancelled r := by
  have hnone : ∀ i ∈ bad, (l.loadInput f' i).classes = [] := by
    intro i hi
    obtain ⟨error, herror⟩ := loadInput_unreadable (l := l) (hbad i hi)
    rw [herror]
  have hclasses : (l.load f' inputs').classes = (l.load f inputs).classes := by
    simp only [load, List.flatMap_map]
    rw [flatMap_of_sublist hsub hperm hnone, List.flatMap_congr fun i hi => (hgrown i hi).loadInput.1]
  refine ⟨hclasses, ?_, ?_, fun rest reach selected cancelled r => by rw [hclasses]⟩
  · simp only [load, List.flatMap_map]
    exact (List.Sublist.flatMap_right inputs fun i hi => (hgrown i hi).loadInput.2.1).trans (hsub.flatMap _)
  · obtain ⟨extra, hextra, hplaces⟩ := failures_grown hgrown
    refine ⟨extra ++ bad.flatMap fun i => (l.loadInput f' i).failures, ?_, ?_⟩
    · simp only [load, List.flatMap_map]
      refine (hperm.flatMap_right _).trans ?_
      rw [List.flatMap_append, ← List.append_assoc]
      exact hextra.append_right _
    · rw [List.map_append, hplaces, paths_unreadable hbad]

theorem load_isolates_spoiledTree :
    boxedInputs.Sublist spoiledInputs ∧
    spoiledInputs.Perm (boxedInputs ++ [⟨"Cut.class", .classFile⟩, ⟨"notes.jar", .jar⟩]) ∧
    (genLoader.load spoiledTree spoiledInputs).classes = [boxedClass] ∧
    ((genLoader.load spoiledTree spoiledInputs).failures.map (·.path)).Perm
      ["app.jar!lib/Half.class", "app.jar!lib/Torn.class", "Cut.class", "notes.jar"] := by
  have hsub : boxedInputs.Sublist spoiledInputs := by decide
  have hperm : spoiledInputs.Perm (boxedInputs ++ [⟨"Cut.class", .classFile⟩, ⟨"notes.jar", .jar⟩]) := by decide
  obtain ⟨hclasses, _, ⟨extra, hextra, hplaces⟩, _⟩ :=
    load_isolates genLoader hsub hperm (fun i => unreadable_spoiledTree) (fun i => grown_spoiledTree)
  rw [load_boxedTree] at hclasses hextra
  refine ⟨hsub, hperm, hclasses, ?_⟩
  have hpaths := hextra.map (·.path)
  rw [List.nil_append, hplaces] at hpaths
  exact hpaths

end Loader

end JvmLint
