import JvmLint.Input.Discover
import JvmLint.Proofs.PathLaws

/-!
# What discovery finds

Discovery comes upon files by paths as they were spelled, and keeps a file when one of its spellings
is not excluded. The kind and the name of an input are the same in every spelling.
-/

namespace JvmLint

/-! ## Kinds and names -/

theorem inputKind?_last (s : String) : inputKind? (Path.last s) = inputKind? s := by
  unfold inputKind?
  rw [Path.extension_last]

theorem isName_last {s : String} (h : (inputKind? s).isSome) : Path.IsName (Path.last s) := by
  rw [← inputKind?_last] at h
  refine ⟨?_, ?_, ?_, Path.noSlash_last s⟩
  all_goals
    intro hlast
    rw [hlast] at h
    exact absurd h (by decide)

namespace Files

variable (f : Files)

theorem workingDir_ne_empty : f.workingDir ≠ "" := by
  simp [workingDir]

theorem last_absolute {s : String} (h : (inputKind? s).isSome) : Path.last (f.absolute s) = Path.last s :=
  Path.last_absolute f.workingDir_ne_empty (isName_last h)

theorem inputKind?_absolute {s : String} (h : (inputKind? s).isSome) : inputKind? (f.absolute s) = inputKind? s := by
  rw [← inputKind?_last, f.last_absolute h, inputKind?_last]

theorem base_absolute {s : String} (h : (inputKind? s).isSome) : Path.base (f.absolute s) = Path.base s := by
  have hne : Path.last s ≠ "" := (isName_last h).ne_empty
  have habs : Path.last (f.absolute s) ≠ "" := by rwa [f.last_absolute h]
  rw [Path.base_eq_last habs, Path.base_eq_last hne, f.last_absolute h]

/-- A file below a root has one path as seen from the root of the tree, whichever way that is taken. -/
theorem absolute_pathBelow {root : String} (hroot : root ≠ "") (way : Place) :
    f.absolute (pathBelow root way) = pathBelow (f.absolute (Path.clean root)) way := by
  have hcwd := f.workingDir_ne_empty
  rw [pathBelow, pathBelow, absolute, absolute, Path.absolute_join hcwd hroot, Path.absolute_clean hcwd]

/-! ## What discovery comes upon -/

def Met.file? : Met → Option String
  | file path => some path
  | refused _ _ => none

def filesBelow (root : String) : List String := (f.walkBelow root).filterMap Met.file?

def spelledFrom (raw : String) : List String :=
  let root := Text.trim raw
  if root = "" then []
  else
    match f.stat root with
    | .error _ => []
    | .ok .dir => f.filesBelow root
    | .ok _ => [root]

def candidates (roots : List String) : List String :=
  (roots.flatMap f.spelledFrom).filter fun path => (inputKind? path).isSome

theorem kind_of_candidate {f : Files} {roots : List String} {path : String} (h : path ∈ f.candidates roots) :
    (inputKind? path).isSome :=
  (List.mem_filter.1 h).2

end Files

namespace Discovered

variable {f : Files} {exclude : List Pattern} {d : Discovered} {a : String}

def Has (f : Files) (d : Discovered) (a : String) : Prop := ∃ i ∈ d.inputs, f.absolute i.path = a

def Takes [GlobLibrary] (f : Files) (exclude : List Pattern) (a path : String) : Prop :=
  (inputKind? path).isSome ∧ isExcludedFile exclude path = false ∧ f.absolute path = a

theorem has_add [GlobLibrary] {path : String} :
    (d.add f exclude path).Has f a ↔ d.Has f a ∨ Takes f exclude a path := by
  unfold add
  cases hkind : inputKind? path with
  | none => simp [Takes, hkind]
  | some kind =>
    by_cases hex : isExcludedFile exclude path
    · simp [Takes, hex]
    · by_cases hold : d.inputs.any fun i => f.absolute i.path == f.absolute path
      · have hthere : Takes f exclude a path → d.Has f a := by
          rintro ⟨_, _, rfl⟩
          obtain ⟨i, hi, hpath⟩ := List.any_eq_true.1 hold
          exact ⟨i, hi, beq_iff_eq.1 hpath⟩
        simpa [hold] using hthere
      · simp [hex, hold, Has, Takes, hkind, or_and_right, exists_or]

theorem has_foldl_meet [GlobLibrary] {ms : List Files.Met} :
    (ms.foldl (meet f exclude) d).Has f a ↔ d.Has f a ∨ ∃ path ∈ ms.filterMap Files.Met.file?, Takes f exclude a path := by
  induction ms generalizing d with
  | nil => simp
  | cons m ms ih =>
    rw [List.foldl_cons, ih]
    cases m with
    | file path => simp [meet, Files.Met.file?, has_add, or_assoc]
    | refused path e => simp [meet, Files.Met.file?, Has, fail]

/-- A file that is given itself is refused when it is no input. -/
theorem has_given [GlobLibrary] {root error : String} :
    (if (inputKind? root).isNone then d.fail root error else d.add f exclude root).Has f a ↔
      d.Has f a ∨ ∃ path ∈ [root], Takes f exclude a path := by
  by_cases hkind : (inputKind? root).isNone
  · have hnot : ¬ Takes f exclude a root := fun h => by simp_all [Takes]
    rw [if_pos hkind]
    simp [hnot, Has, fail]
  · rw [if_neg hkind, has_add]
    simp

theorem has_addRoot [GlobLibrary] {raw : String} :
    (d.addRoot f exclude raw).Has f a ↔ d.Has f a ∨ ∃ path ∈ f.spelledFrom raw, Takes f exclude a path := by
  unfold addRoot Files.spelledFrom
  by_cases hblank : Text.trim raw = ""
  · simp [hblank]
  · simp only [hblank, if_false]
    cases f.stat (Text.trim raw) with
    | error e => simp [Has, fail]
    | ok node =>
      cases node with
      | dir => exact has_foldl_meet
      | file c => exact has_given
      | link target => exact has_given

theorem has_foldl_addRoot [GlobLibrary] {roots : List String} :
    (roots.foldl (addRoot f exclude) d).Has f a ↔
      d.Has f a ∨ ∃ path ∈ roots.flatMap f.spelledFrom, Takes f exclude a path := by
  induction roots generalizing d with
  | nil => simp
  | cons raw roots ih =>
    rw [List.foldl_cons, ih, has_addRoot, or_assoc, List.flatMap_cons]
    simp [or_and_right, exists_or]

end Discovered

/-- A file is found when discovery comes upon it by a path that is not excluded. -/
theorem has_discover [GlobLibrary] {f : Files} {roots : List String} {exclude : List Pattern} {a : String} :
    (discover f roots exclude).Has f a ↔
      ∃ path ∈ f.candidates roots, isExcludedFile exclude path = false ∧ f.absolute path = a := by
  unfold discover Files.candidates
  rw [Discovered.has_foldl_addRoot]
  simp [Discovered.Has, Discovered.Takes, and_assoc]

end JvmLint
