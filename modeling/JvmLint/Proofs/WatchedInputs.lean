import JvmLint.Config.Paths
import JvmLint.Pattern.GlobTree
import JvmLint.Proofs.Dedup
import JvmLint.Proofs.Discovery
import JvmLint.Watch.Watcher

/-!
# What a watcher lets through

A watcher and discovery exclude files by the same patterns, but hold them against different spellings:
the watcher against paths as seen from the root, discovery against paths as they were given. Where the
patterns cannot tell the two apart, a change passes the watcher exactly when discovery takes the file
up, provided that discovery comes upon it at all.
-/

namespace JvmLint

/-! ## Spellings -/

theorem mem_uniqueRoots {f : Files} {roots : List String} {root : String} (h : root ∈ roots) :
    f.absolute (Path.clean root) ∈ uniqueRoots f roots := by
  rw [uniqueRoots, List.mem_mergeSort, mem_dedup]
  exact List.mem_map_of_mem h

theorem isExcludedFile_absolute [GlobLibrary] (f : Files) {ps : List Pattern} {path : String}
    (hkind : (inputKind? path).isSome)
    (halike : Pattern.anyCovers ps path = Pattern.anyCovers ps (f.absolute path)) :
    isExcludedFile ps (f.absolute path) = isExcludedFile ps path := by
  rw [isExcludedFile, isExcludedFile, f.base_absolute hkind, halike]

theorem Files.absolute_of_mem_filesBelow {f : Files} {root path : String} (hne : root ≠ "")
    (hroot : f.absolute root = root) (hpath : path ∈ f.filesBelow root) : f.absolute path = path := by
  obtain ⟨m, hm, hfile⟩ := List.mem_filterMap.1 hpath
  unfold walkBelow at hm
  split at hm
  · obtain ⟨⟨way, n⟩, -, hsome⟩ := List.mem_filterMap.1 hm
    have hway : path = pathBelow root way := by
      dsimp only at hsome
      split at hsome
      · cases hsome
      · split at hsome
        · obtain ⟨e, -, rfl⟩ := Option.map_eq_some_iff.1 hsome
          cases hfile
        · obtain rfl := Option.some.inj hsome
          exact (Option.some.inj hfile).symm
    rw [hway, f.absolute_pathBelow hne, absolute, Path.absolute_clean f.workingDir_ne_empty, ← absolute, hroot]
  · obtain rfl := List.mem_singleton.1 hm
    obtain rfl := Option.some.inj hfile
    exact hroot
  · obtain rfl := List.mem_singleton.1 hm
    cases hfile

/-- Roots that are given as clean paths from the root of the tree leave discovery no other spelling. -/
theorem Files.absolute_candidate {f : Files} {roots : List String} {path : String}
    (hroots : ∀ root ∈ roots, f.absolute (Text.trim root) = Text.trim root) (hpath : path ∈ f.candidates roots) :
    f.absolute path = path := by
  obtain ⟨raw, hraw, hspelled⟩ := List.mem_flatMap.1 (List.mem_filter.1 hpath).1
  have hroot := hroots raw hraw
  unfold spelledFrom at hspelled
  by_cases hblank : Text.trim raw = ""
  · simp [hblank] at hspelled
  · simp only [hblank, if_false] at hspelled
    cases hstat : f.stat (Text.trim raw) with
    | error e => simp [hstat] at hspelled
    | ok node =>
      rw [hstat] at hspelled
      cases node with
      | dir => exact absolute_of_mem_filesBelow hblank hroot hspelled
      | file _ | link _ =>
        have hgiven : path = Text.trim raw := by simpa using hspelled
        subst hgiven
        exact hroot

/-- The path by which a file below a root is reported by those who watch the root as seen from the root
of the tree. -/
def Files.reportedPath (f : Files) (root : String) (way : Place) : String :=
  pathBelow (f.absolute (Path.clean root)) way

/-- Discovery by one spelling of each path. -/
theorem has_discover_of_alike [GlobLibrary] {f : Files} {roots : List String} {ps : List Pattern} {a : String}
    (halike : ∀ path ∈ f.candidates roots, f.absolute path = a → Pattern.anyCovers ps path = Pattern.anyCovers ps a) :
    (discover f roots ps).Has f a ↔
      (∃ path ∈ f.candidates roots, f.absolute path = a) ∧ (inputKind? a).isSome ∧ isExcludedFile ps a = false := by
  rw [has_discover]
  constructor
  · rintro ⟨path, hpath, hfree, rfl⟩
    have hkind := Files.kind_of_candidate hpath
    refine ⟨⟨path, hpath, rfl⟩, ?_, ?_⟩
    · rw [f.inputKind?_absolute hkind]
      exact hkind
    · rw [isExcludedFile_absolute f hkind (halike path hpath rfl)]
      exact hfree
  · rintro ⟨⟨path, hpath, rfl⟩, _, hfree⟩
    have hkind := Files.kind_of_candidate hpath
    rw [isExcludedFile_absolute f hkind (halike path hpath rfl)] at hfree
    exact ⟨path, hpath, hfree, rfl⟩

namespace Watcher

variable {f : Files} {w w' : Watcher} {root : String} {roots patterns : List String}

/-! ## The filter of a watcher -/

theorem filter_watchTree [GlobLibrary] {seed : Bool} (h : w.watchTree f seed root = .ok w') :
    w'.filter = w.filter := by
  unfold watchTree at h
  cases hwalk : f.walk w.filter.excludesDir root with
  | error e => rw [hwalk] at h; cases h
  | ok found =>
    rw [hwalk] at h
    cases h
    refine List.foldlRecOn (motive := fun v : Watcher => v.filter = w.filter) found _ rfl fun v hv x _ => ?_
    obtain ⟨path, p, n⟩ := x
    dsimp only
    split
    · exact hv
    · split <;> exact hv

theorem exists_watchRoot [GlobLibrary] {found : Place × FileNode} (hstat : f.stat root = .ok .dir)
    (hlstat : f.lstat root = .ok found) :
    ∃ w', w.watchRoot f root = .ok w' := by
  unfold watchRoot watchTree Files.walk
  rw [hstat, hlstat]
  exact ⟨_, rfl⟩

theorem filter_watchRoot [GlobLibrary] (h : w.watchRoot f root = .ok w') : w'.filter = w.filter := by
  unfold watchRoot at h
  cases hstat : f.stat root with
  | error e => rw [hstat] at h; cases h
  | ok node =>
    rw [hstat] at h
    cases node with
    | dir =>
      cases htree : w.watchTree f true root with
      | error e => simp only [htree] at h; cases h
      | ok v =>
        simp only [htree] at h
        cases h
        exact filter_watchTree htree
    | file _ | link _ =>
      cases hdir : f.locate true (Path.dir root) with
      | error e => simp only [hdir] at h; cases h
      | ok p => simp only [hdir] at h; cases h; rfl

theorem filter_watch [GlobLibrary] (h : w.watch f roots = .ok w') : w'.filter = w.filter := by
  unfold watch at h
  induction roots generalizing w with
  | nil => cases h; rfl
  | cons root roots ih =>
    rw [List.foldlM_cons] at h
    cases hroot : w.watchRoot f root with
    | error e => rw [hroot] at h; cases h
    | ok v =>
      rw [hroot] at h
      rw [ih h, filter_watchRoot hroot]

theorem compileAll_of_ofPatterns [GlobLibrary] (h : ofPatterns true patterns [] = .ok w) :
    Pattern.compileAll patterns = .ok w.filter.excludeFiles := by
  unfold ofPatterns at h
  cases hfiles : Pattern.compileAll patterns with
  | error e => rw [hfiles] at h; cases h
  | ok ps => rw [hfiles] at h; cases h; rfl

theorem excludesFile_eq_false [GlobLibrary] {path : String} :
    w.filter.excludesFile path = false ↔
      (inputKind? path).isSome ∧ isExcludedFile w.filter.excludeFiles path = false := by
  simp [WatchFilter.excludesFile]

theorem compileAll_of_start [GlobLibrary] (h : (do (← ofPatterns true patterns []).watch f roots) = .ok w) :
    Pattern.compileAll patterns = .ok w.filter.excludeFiles := by
  cases hpatterns : ofPatterns true patterns [] with
  | error e => rw [hpatterns] at h; cases h
  | ok v =>
    rw [hpatterns] at h
    rw [filter_watch h]
    exact compileAll_of_ofPatterns hpatterns

end Watcher

/-! ## A tree with a hidden directory -/

theorem Files.follow_dir {f : Files} {last : Bool} {links : Nat} {at_ : Place} {name : String} {rest : List String}
    (hname : name ≠ "." ∧ name ≠ ".." ∧ name.utf8ByteSize ≤ 255) (hdir : f.node? (at_ ++ [name]) = some .dir) :
    f.follow last links at_ (name :: rest) = f.follow last links (at_ ++ [name]) rest := by
  obtain ⟨hdot, hup, hsize⟩ := hname
  rw [follow]
  simp [hdot, hup, Nat.not_lt.2 hsize, hdir]

def outputTree : Files := {
  cwd := ["work"]
  nodes := [
    (["work"], .dir), (["work", "out"], .dir), (["work", "out", ".cache"], .dir),
    (["work", "out", ".cache", "Old.class"], .file (.bytes [])),
    (["work", "out", "Quiet.class"], .file (.bytes [])),
    (["work", "out", "Stale.class"], .file (.bytes []))] }

def outputPatterns : List String := ["out/Stale.class", "/work/out/Quiet.class"]

def outputExcluded : List Pattern := [⟨"out/Stale.class", none⟩, ⟨"/work/out/Quiet.class", none⟩]

theorem compileAll_outputPatterns : Pattern.compileAll outputPatterns = .ok outputExcluded := rfl

theorem below_outputTree : outputTree.below ["work", "out"] =
    [([".cache"], .dir), ([".cache", "Old.class"], .file (.bytes [])), (["Quiet.class"], .file (.bytes [])),
      (["Stale.class"], .file (.bytes []))] := by
  unfold Files.below
  rw [List.mergeSort_of_pairwise (by decide)]
  decide

theorem find_outputTree {root : String} (h : root = "out" ∨ root = "/work/out") (last : Bool) :
    outputTree.find last root = .ok (["work", "out"], .dir) := by
  have hout : outputTree.follow last 40 ["work"] ["out"] = .ok ["work", "out"] := by
    rw [Files.follow_dir (by decide) (by decide), Files.follow]
    rfl
  have hlocate : outputTree.locate last root = .ok ["work", "out"] := by
    rcases h with rfl | rfl
    · exact hout
    · have hwork : outputTree.locate last "/work/out" = outputTree.follow last 40 [] ["work", "out"] := rfl
      rw [hwork, Files.follow_dir (by decide) (by decide)]
      exact hout
  rw [Files.find, hlocate]
  rfl

theorem candidates_outputTree {root : String} (h : root = "out" ∨ root = "/work/out") :
    outputTree.candidates [root] = [root ++ "/Quiet.class", root ++ "/Stale.class"] := by
  have hstat : outputTree.stat root = .ok .dir := by rw [Files.stat, find_outputTree h]
  have hblank : Text.trim root = root ∧ root ≠ "" := by rcases h with rfl | rfl <;> decide
  have hfiles : outputTree.filesBelow root = [root ++ "/Quiet.class", root ++ "/Stale.class"] := by
    rw [Files.filesBelow, Files.walkBelow, find_outputTree h]
    simp only [below_outputTree]
    rcases h with rfl | rfl <;> decide
  unfold Files.candidates Files.spelledFrom
  simp only [List.flatMap_cons, List.flatMap_nil, hblank.1, hblank.2, if_false, hstat, hfiles]
  rcases h with rfl | rfl <;> decide

theorem has_discover_outputTree (a : String) :
    (discover outputTree ["out"] outputExcluded).Has outputTree a ↔ a = "/work/out/Quiet.class" := by
  rw [has_discover, candidates_outputTree (.inl rfl)]
  constructor
  · rintro ⟨path, hpath, hfree, rfl⟩
    revert path
    decide
  · rintro rfl
    decide

theorem start_outputTree {root : String} (h : root = "out" ∨ root = "/work/out") :
    ∃ w, (do (← Watcher.ofPatterns true outputPatterns []).watch outputTree (uniqueRoots outputTree [root])) = .ok w := by
  have hroots : uniqueRoots outputTree [root] = ["/work/out"] := by
    have hseen : dedup ([root].map fun p => outputTree.absolute (Path.clean p)) = ["/work/out"] := by
      rcases h with rfl | rfl <;> decide
    rw [uniqueRoots, hseen, List.mergeSort_singleton]
  have hfind := find_outputTree (.inr rfl)
  obtain ⟨v, hv⟩ : ∃ v, Watcher.ofPatterns true outputPatterns [] = .ok v := ⟨_, rfl⟩
  have hstat : outputTree.stat "/work/out" = .ok .dir := by rw [Files.stat, hfind]
  have hlstat : outputTree.lstat "/work/out" = .ok (["work", "out"], .dir) := by rw [Files.lstat, hfind]; rfl
  obtain ⟨w, hw⟩ := Watcher.exists_watchRoot (w := v) hstat hlstat
  refine ⟨w, ?_⟩
  rw [hroots, hv]
  show v.watch outputTree ["/work/out"] = .ok w
  rw [Watcher.watch, List.foldlM_cons, hw]
  rfl

namespace Watcher

variable {f : Files} {w : Watcher} {root : String} {roots patterns : List String}

/-! ## Changes and inputs -/

/-- A session watches its roots as seen from the root of the tree. A change of a file below one of them
passes the watcher if and only if discovery, with the roots as they were given, takes the file up. Two
things have to be asked for: discovery has to come upon the file, which it does not in hidden
directories, and the patterns have to say the same of the path that the watcher reports and of the
paths that discovery comes upon the file by. -/
theorem passes_iff_discovered [GlobLibrary]
    (hstart : (do (← ofPatterns true patterns []).watch f (uniqueRoots f roots)) = .ok w)
    (hroot : root ∈ roots) (hne : root ≠ "") (way : Place)
    (halike : ∀ path ∈ f.candidates roots, f.absolute path = f.reportedPath root way →
      Pattern.anyCovers w.filter.excludeFiles path =
        Pattern.anyCovers w.filter.excludeFiles (f.reportedPath root way)) :
    Pattern.compileAll patterns = .ok w.filter.excludeFiles ∧
    f.absolute (Path.clean root) ∈ uniqueRoots f roots ∧
    f.absolute (Files.pathBelow root way) = f.reportedPath root way ∧
    ((∃ path ∈ f.candidates roots, f.absolute path = f.reportedPath root way) ∧
        w.filter.excludesFile (f.reportedPath root way) = false ↔
      ∃ i ∈ (discover f roots w.filter.excludeFiles).inputs, f.absolute i.path = f.reportedPath root way) := by
  refine ⟨compileAll_of_start hstart, mem_uniqueRoots hroot, f.absolute_pathBelow hne way, ?_⟩
  rw [excludesFile_eq_false]
  exact (has_discover_of_alike halike).symm

/-- A root from the root of the tree: the patterns for other spellings say nothing, here or there. -/
theorem passes_iff_discovered_outputTree :
    ∃ w, (do (← ofPatterns true outputPatterns []).watch outputTree (uniqueRoots outputTree ["/work/out"])) = .ok w ∧
      w.filter.excludesFile (outputTree.reportedPath "/work/out" ["Stale.class"]) = false ∧
      ∃ i ∈ (discover outputTree ["/work/out"] w.filter.excludeFiles).inputs,
        outputTree.absolute i.path = outputTree.reportedPath "/work/out" ["Stale.class"] := by
  obtain ⟨w, hw⟩ := start_outputTree (.inr rfl)
  have hroots : ∀ root ∈ ["/work/out"], outputTree.absolute (Text.trim root) = Text.trim root := by decide
  obtain ⟨hpatterns, _, _, hiff⟩ := passes_iff_discovered hw (List.mem_singleton.2 rfl) (by decide) ["Stale.class"]
    fun path hpath hreported => by rw [← hreported, Files.absolute_candidate hroots hpath]
  rw [compileAll_outputPatterns] at hpatterns
  have hpasses : w.filter.excludesFile (outputTree.reportedPath "/work/out" ["Stale.class"]) = false := by
    rw [excludesFile_eq_false, ← Except.ok.inj hpatterns]
    decide
  have hmet : ∃ path ∈ outputTree.candidates ["/work/out"],
      outputTree.absolute path = outputTree.reportedPath "/work/out" ["Stale.class"] := by
    rw [candidates_outputTree (.inr rfl)]
    decide
  exact ⟨w, hw, hpasses, hiff.1 ⟨hmet, hpasses⟩⟩

/-- A root from the working directory: a change passes although discovery excludes the file, one is held
back although discovery takes the file up, and one passes in a directory that discovery does not enter. -/
theorem outputTree_disagrees :
    ∃ w, (do (← ofPatterns true outputPatterns []).watch outputTree (uniqueRoots outputTree ["out"])) = .ok w ∧
      (w.filter.excludesFile (outputTree.reportedPath "out" ["Stale.class"]) = false ∧
        ¬ ∃ i ∈ (discover outputTree ["out"] w.filter.excludeFiles).inputs,
          outputTree.absolute i.path = outputTree.reportedPath "out" ["Stale.class"]) ∧
      (w.filter.excludesFile (outputTree.reportedPath "out" ["Quiet.class"]) = true ∧
        ∃ i ∈ (discover outputTree ["out"] w.filter.excludeFiles).inputs,
          outputTree.absolute i.path = outputTree.reportedPath "out" ["Quiet.class"]) ∧
      (w.filter.excludesFile (outputTree.reportedPath "out" [".cache", "Old.class"]) = false ∧
        ¬ ∃ i ∈ (discover outputTree ["out"] w.filter.excludeFiles).inputs,
          outputTree.absolute i.path = outputTree.reportedPath "out" [".cache", "Old.class"]) := by
  obtain ⟨w, hw⟩ := start_outputTree (.inl rfl)
  have hpatterns := compileAll_of_start hw
  rw [compileAll_outputPatterns] at hpatterns
  have hfound : ∀ a, (∃ i ∈ (discover outputTree ["out"] w.filter.excludeFiles).inputs, outputTree.absolute i.path = a) ↔
      a = "/work/out/Quiet.class" := by
    rw [← Except.ok.inj hpatterns]
    exact has_discover_outputTree
  have hfilter : ∀ path, w.filter.excludesFile path = ((inputKind? path).isNone || isExcludedFile outputExcluded path) := by
    rw [Except.ok.inj hpatterns]
    exact fun path => rfl
  refine ⟨w, hw, ?_⟩
  simp only [hfound, hfilter]
  decide

end Watcher

end JvmLint
