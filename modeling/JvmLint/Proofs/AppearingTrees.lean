import JvmLint.Proofs.BatchedChanges
import JvmLint.Proofs.PathLaws
import JvmLint.Proofs.SeenContents
import JvmLint.Proofs.WatchedInputs

/-!
# Trees that appear

A directory that appears is walked twice: once to watch the directories in it, and once to look at its files. The
first walk stays out of excluded directories, the second does not.
-/

namespace JvmLint

/-! ## Directories at the end of a path -/

namespace Files

variable {f : Files} {p : Place} {root : String}

/-- What is no link is found the same way with and without links followed. -/
theorem follow_of_dir {links : Nat} {at_ : Place} {names : List String}
    (hfollow : f.follow false links at_ names = .ok p) (hnode : f.node? p = some .dir) : f.follow true links at_ names = .ok p := by
  fun_induction f.follow false links at_ names with
  | case1 => rw [follow]; exact hfollow
  | case2 links at_ rest ih => rw [follow, if_pos rfl]; exact ih hfollow
  | case3 links at_ rest hdot ih => rw [follow, if_neg hdot, if_pos rfl]; exact ih hfollow
  | case7 links at_ name rest hdot hup hsize here hdir ih =>
    rw [follow_dir ⟨hdot, hup, Nat.not_lt.1 hsize⟩ hdir]
    exact ih hfollow
  | case12 at_ name rest hdot hup hsize here target hlink hmore links ih =>
    have hrest : rest.isEmpty = false := by simpa using hmore
    rw [follow]
    simp only [hdot, hup, hsize, if_false]
    rw [hlink]
    simp only [hrest, Bool.false_and]
    exact ih hfollow
  | case4 | case6 | case9 | case11 => cases hfollow
  -- the place that was reached holds no directory
  | case5 | case8 | case10 => rw [← Except.ok.inj hfollow] at hnode; simp_all

theorem ne_nil_of_mem_below {way : Place} {n : FileNode} (h : (way, n) ∈ f.below p) : way ≠ [] := by
  rw [below, List.mem_mergeSort, List.mem_filterMap] at h
  obtain ⟨⟨q, m⟩, _, hsome⟩ := h
  simp only [Option.ite_none_right_eq_some, Option.some.injEq, Prod.mk.injEq, Bool.and_eq_true,
    List.isPrefixOf_iff_prefix] at hsome
  obtain ⟨⟨⟨rest, rfl⟩, hne⟩, rfl, _⟩ := hsome
  intro hnil
  simp_all

theorem pathBelow_injective {a b : Place} (hroot : root ≠ "") (ha : a ≠ [] ∧ ∀ name ∈ a, Path.IsName name)
    (hb : b ≠ [] ∧ ∀ name ∈ b, Path.IsName name) (h : pathBelow root a = pathBelow root b) : a = b := by
  have hsplit : ∀ {way : Place}, way ≠ [] ∧ (∀ name ∈ way, Path.IsName name) →
      Text.splitOn ("/".intercalate way) '/' = way :=
    fun hway => Text.splitOn_intercalate hway.1 fun name hname => (hway.2 name hname).noSlash
  have hsame : "/".intercalate a = "/".intercalate b :=
    Path.join_injective hroot (by rw [hsplit ha]; exact ha.2) (by rw [hsplit hb]; exact hb.2) h
  rw [← hsplit ha, ← hsplit hb, hsame]

end Files

theorem Files.isDir_of_lstat {f : Files} {path : String} {p : Place} (h : f.lstat path = .ok (p, .dir)) :
    f.isDir path = true ∧ path ≠ "" := by
  obtain ⟨q, hq, hnode⟩ := except_bind_eq_ok.1 (mapError_eq_ok.1 h)
  cases hat : f.node? q with
  | none => rw [hat] at hnode; cases hnode
  | some n =>
    rw [hat] at hnode
    cases hnode
    have hne : path ≠ "" := by
      rintro rfl
      cases hq
    have hlocate : f.locate true path = .ok p := by
      unfold locate at hq ⊢
      rw [if_neg hne] at hq ⊢
      split at hq
      · cases hq
      · next hshort =>
        rw [if_neg hshort]
        exact follow_of_dir hq hat
    refine ⟨?_, hne⟩
    have hfind : f.find true path = .ok (p, .dir) := by
      rw [find, hlocate]
      simp only [bind, Except.bind, hat]
      rfl
    rw [isDir, stat, hfind]
    rfl

/-! ## Checks of many files -/

namespace Contents

variable {c : Contents} {f : Files} {p path : String}

theorem Records.changed (h : c.Records f path) (p : String) : (c.changed f p).2.Records f path := by
  obtain ⟨bytes, hsight, hsum⟩ := h
  refine ⟨bytes, hsight, ?_⟩
  rw [sum?_changed, sum?_remember]
  by_cases hp : p = path
  · rw [if_pos hp, hp, hsight]
    rfl
  · rw [if_neg hp, hsum]

theorem records_changed_of_ne (hp : p ≠ path) : (c.changed f p).2.Records f path ↔ c.Records f path := by
  unfold Records
  rw [sum?_changed, sum?_remember, if_neg hp]

end Contents

namespace Watcher

variable {f : Files} {w : Watcher} {top path : String} {p : Place} {found : List (String × Place × FileNode)}

theorem mem_pending_check {file : String} :
    path ∈ (w.check f file).batching.pending ↔
      path ∈ w.batching.pending ∨ path = file ∧ ¬ w.contents.Records f file := by
  rw [← Contents.changed_eq_false]
  unfold check Watcher.changed
  cases hchanged : (w.contents.changed f file).1 with
  | false => simp [hchanged]
  | true =>
    simp only [hchanged]
    show path ∈ insertSorted file w.batching.pending ↔ _
    rw [mem_insertSorted]
    simp [or_comm]

/-- Files are scheduled by what was on record before: a check records the file it is about, and no other. -/
theorem mem_pending_foldl_check (files : List String) :
    path ∈ (files.foldl (fun w file => w.check f file) w).batching.pending ↔
      path ∈ w.batching.pending ∨ path ∈ files ∧ ¬ w.contents.Records f path := by
  induction files generalizing w with
  | nil => simp
  | cons file files ih =>
    rw [List.foldl_cons, ih, mem_pending_check, contents_check, List.mem_cons]
    by_cases hfile : file = path
    · subst hfile
      -- if the path comes up again, its second check schedules it only if the first one did
      have hkept := fun h : w.contents.Records f file => h.changed file
      grind
    · rw [Contents.records_changed_of_ne hfile]
      grind

theorem mem_filesAmong [GlobLibrary] {filter : WatchFilter} :
    path ∈ filesAmong filter found ↔ ∃ x ∈ found, x.2.2 ≠ .dir ∧ filter.excludesFile x.1 = false ∧ x.1 = path := by
  unfold filesAmong
  simp [and_assoc]

/-! ## Directories of a tree -/

theorem lookup_add (dirs : WatchedDirs) (q : Place) :
    (dirs.add p path).lookup q = if p = q then some path else dirs.lookup q := by
  unfold WatchedDirs.add
  by_cases h : p = q
  · simp [h]
  · have hne : (q == p) = false := by simpa using Ne.symm h
    rw [if_neg h, List.lookup_cons, hne]
    exact lookup_filter_of_ne (Ne.symm h)

/-- A place is watched by the path of the directory found there. -/
theorem lookup_enter (path : String) {dirs : WatchedDirs} {q : Place}
    (hpath : ∀ x ∈ found, x.2.2 = .dir → x.2.1 = q → Path.clean x.1 = path) :
    (enter dirs found).lookup q =
      if found.any (fun x => x.2.2 = .dir && x.2.1 = q) then some path else dirs.lookup q := by
  unfold enter
  induction found generalizing dirs with
  | nil => simp
  | cons x found ih =>
    rw [List.foldl_cons, ih fun y hy => hpath y (List.mem_cons_of_mem _ hy)]
    by_cases hx : x.2.2 = .dir
    · rw [if_pos hx, lookup_add]
      by_cases hq : x.2.1 = q
      · simp [hx, hq, hpath x List.mem_cons_self hx hq]
      · simp only [List.any_cons, hq, decide_false, Bool.and_false, Bool.false_or, if_false]
    · simp only [List.any_cons, hx, decide_false, Bool.false_and, Bool.false_or, if_false]

/-! ## What becomes of a tree -/

/-- A class file or jar of a tree that no pattern for files excludes and whose bytes are not on record, by the way to
it from the top of the tree. -/
structure News [GlobLibrary] (w : Watcher) (f : Files) (top : String) (p way : Place) : Prop where
  isFile : ∃ n, (way, n) ∈ f.below p ∧ n ≠ .dir
  isInput : (inputKind? (Files.pathBelow top way)).isSome
  isFree : isExcludedFile w.filter.excludeFiles (Files.pathBelow top way) = false
  isNew : ¬ w.contents.Records f (Files.pathBelow top way)

/-- Between the top of a tree and one of its files there is a directory that is excluded. -/
def Secluded [GlobLibrary] (w : Watcher) (way : Place) : Prop :=
  ∃ name ∈ way.dropLast, w.filter.excludesDir name = true

theorem mem_pending_tree [GlobLibrary] (hnode : f.lstat top = .ok (p, .dir))
    (hopen : w.filter.excludesDir top = false)
    (path : String) :
    path ∈ (handle f w ⟨.created, top⟩).batching.pending ↔
      path ∈ w.batching.pending ∨ ∃ way, w.News f top p way ∧ Files.pathBelow top way = path := by
  rw [handle_tree (Files.isDir_of_lstat hnode).1 hopen (Files.walk_eq hnode _) (Files.walk_eq hnode _),
    mem_pending_foldl_check, mem_filesAmong]
  refine or_congr_right ⟨?_, ?_⟩
  · rintro ⟨⟨x, hx, hfile, hpass, rfl⟩, hnew⟩
    rcases List.mem_cons.1 hx with rfl | hx
    · exact absurd rfl hfile
    · obtain ⟨⟨way, n⟩, hkept, rfl⟩ := List.mem_map.1 hx
      rw [if_pos rfl, List.mem_filter] at hkept
      obtain ⟨hinput, hfree⟩ := excludesFile_eq_false.1 hpass
      exact ⟨way, ⟨⟨n, hkept.1, hfile⟩, hinput, hfree, hnew⟩, rfl⟩
  · rintro ⟨way, ⟨⟨n, hbelow, hfile⟩, hinput, hfree, hnew⟩, rfl⟩
    have hkept : (way, n) ∈ (f.below p).filter fun x =>
        !(if x.2 = .dir then x.1 else x.1.dropLast).any fun _ => false := by
      simpa using hbelow
    refine ⟨⟨(Files.pathBelow top way, p ++ way, n), ?_, hfile, excludesFile_eq_false.2 ⟨hinput, hfree⟩, rfl⟩, hnew⟩
    rw [if_pos rfl]
    exact List.mem_cons_of_mem _ (List.mem_map.2 ⟨(way, n), hkept, rfl⟩)

theorem dirs_foldl_check (files : List String) : (files.foldl (fun w file => w.check f file) w).dirs = w.dirs := by
  refine List.foldlRecOn (motive := fun v : Watcher => v.dirs = w.dirs) files _ rfl fun v hv file _ => ?_
  unfold check Watcher.changed
  dsimp only
  split <;> exact hv

section
variable {leaveOut : String → Bool} (hnode : f.lstat top = .ok (p, .dir)) (hwalk : f.walk leaveOut top = .ok found)
include hnode hwalk

theorem dir_of_mem_walk {x : String × Place × FileNode} (hx : x ∈ found) (hdir : x.2.2 = .dir) :
    ∃ way, x.2.1 = p ++ way ∧ Path.clean x.1 = Path.clean (Files.pathBelow top way) ∧ way.any leaveOut = false := by
  rw [Files.walk_eq hnode, if_pos rfl] at hwalk
  cases hwalk
  rcases List.mem_cons.1 hx with rfl | hx
  · refine ⟨[], (List.append_nil _).symm, ?_, rfl⟩
    have htop : Files.pathBelow top [] = Path.clean top := by
      rw [Files.pathBelow, Path.join, if_neg (Files.isDir_of_lstat hnode).2]
      rfl
    rw [htop, Path.clean_clean]
  · obtain ⟨⟨way, n⟩, hkept, rfl⟩ := List.mem_map.1 hx
    obtain rfl : n = .dir := hdir
    refine ⟨way, rfl, rfl, ?_⟩
    simpa using (List.mem_filter.1 hkept).2

theorem exists_mem_walk {way : Place} (hway : way = [] ∨ (way, .dir) ∈ f.below p) (hfree : way.any leaveOut = false) :
    ∃ x ∈ found, x.2.2 = .dir ∧ x.2.1 = p ++ way := by
  rw [Files.walk_eq hnode, if_pos rfl] at hwalk
  cases hwalk
  rcases hway with rfl | hbelow
  · exact ⟨_, List.mem_cons_self, rfl, (List.append_nil _).symm⟩
  · refine ⟨_, List.mem_cons_of_mem _ (List.mem_map.2 ⟨(way, .dir), List.mem_filter.2 ⟨hbelow, ?_⟩, rfl⟩), rfl, rfl⟩
    rw [if_pos rfl, hfree]
    rfl

end

theorem lookup_dirs_tree [GlobLibrary] (hnode : f.lstat top = .ok (p, .dir))
    (hopen : w.filter.excludesDir top = false) {way : Place}
    (hway : way = [] ∨ (way, .dir) ∈ f.below p) :
    (handle f w ⟨.created, top⟩).dirs.lookup (p ++ way) =
      if way.any w.filter.excludesDir then w.dirs.lookup (p ++ way)
      else some (Path.clean (Files.pathBelow top way)) := by
  obtain ⟨entered, hentered⟩ : ∃ entered, f.walk w.filter.excludesDir top = .ok entered := ⟨_, Files.walk_eq hnode _⟩
  have hthere : ∀ x ∈ entered, x.2.2 = .dir → x.2.1 = p ++ way →
      Path.clean x.1 = Path.clean (Files.pathBelow top way) ∧ way.any w.filter.excludesDir = false := by
    intro x hx hdir hplace
    obtain ⟨way', hplace', hclean, hfree⟩ := dir_of_mem_walk hnode hentered hx hdir
    obtain rfl : way' = way := List.append_cancel_left (hplace'.symm.trans hplace)
    exact ⟨hclean, hfree⟩
  rw [handle_tree (Files.isDir_of_lstat hnode).1 hopen hentered (Files.walk_eq hnode _), dirs_foldl_check,
    lookup_enter _ fun x hx hdir hplace => (hthere x hx hdir hplace).1]
  cases hfree : way.any w.filter.excludesDir with
  | true =>
    have hnone : (entered.any fun x => x.2.2 = .dir && x.2.1 = p ++ way) = false := by
      refine List.any_eq_false.2 fun x hx hat => ?_
      simp only [Bool.and_eq_true, decide_eq_true_eq] at hat
      have hopen := (hthere x hx hat.1 hat.2).2
      rw [hfree] at hopen
      cases hopen
    rw [if_neg (by simp [hnone]), if_pos rfl]
  | false =>
    obtain ⟨x, hx, hdir, hplace⟩ := exists_mem_walk hnode hentered hway hfree
    rw [if_pos (List.any_eq_true.2 ⟨x, hx, by simp [hdir, hplace]⟩)]
    rfl

/-- When a directory appears that is not excluded itself, every class file and jar of its tree is scheduled that no
pattern for files excludes and whose bytes are not on record, also where a directory on the way is excluded. So what
is scheduled is what excluded directories leave over if and only if the files in them are pending already. The
directories that are watched from then on are those that are not in an excluded one. -/
theorem tree_scheduled_throughout [GlobLibrary] (w : Watcher) (f : Files) (top : String) (p : Place)
    (hnode : f.lstat top = .ok (p, .dir)) (hopen : w.filter.excludesDir top = false) :
    (∀ path, path ∈ (handle f w ⟨.created, top⟩).batching.pending ↔
      path ∈ w.batching.pending ∨ ∃ way, w.News f top p way ∧ Files.pathBelow top way = path) ∧
    ((∀ x ∈ f.below p, ∀ name ∈ x.1, Path.IsName name) →
      ((∀ path, path ∈ (handle f w ⟨.created, top⟩).batching.pending ↔
          path ∈ w.batching.pending ∨ ∃ way, w.News f top p way ∧ ¬ w.Secluded way ∧ Files.pathBelow top way = path) ↔
        ∀ way, w.News f top p way → w.Secluded way → Files.pathBelow top way ∈ w.batching.pending)) ∧
    (∀ way, way = [] ∨ (way, .dir) ∈ f.below p →
      (handle f w ⟨.created, top⟩).dirs.lookup (p ++ way) =
        if way.any w.filter.excludesDir then w.dirs.lookup (p ++ way)
        else some (Path.clean (Files.pathBelow top way))) := by
  have hpending := mem_pending_tree hnode hopen
  refine ⟨hpending, ?_, fun way hway => lookup_dirs_tree hnode hopen hway⟩
  intro hnames
  have hplain : ∀ {way}, w.News f top p way → way ≠ [] ∧ ∀ name ∈ way, Path.IsName name := by
    rintro way ⟨⟨n, hbelow, _⟩, _, _, _⟩
    exact ⟨Files.ne_nil_of_mem_below hbelow, hnames _ hbelow⟩
  simp only [hpending]
  constructor
  · intro hexact way hnews hsecluded
    rcases (hexact _).1 (.inr ⟨way, hnews, rfl⟩) with hbefore | ⟨way', hnews', hfree, hpath⟩
    · exact hbefore
    -- a path belongs to one file only, so no file outside can stand for it
    · obtain rfl := Files.pathBelow_injective (Files.isDir_of_lstat hnode).2 (hplain hnews') (hplain hnews) hpath
      exact absurd hsecluded hfree
  · intro hsettled path
    constructor
    · rintro (hbefore | ⟨way, hnews, rfl⟩)
      · exact .inl hbefore
      · by_cases hsecluded : w.Secluded way
        · exact .inl (hsettled way hnews hsecluded)
        · exact .inr ⟨way, hnews, hsecluded, rfl⟩
    · rintro (hbefore | ⟨way, hnews, _, rfl⟩)
      · exact .inl hbefore
      · exact .inr ⟨way, hnews, rfl⟩

/-! ## A tree with an excluded directory -/

def cacheless : Watcher := { filter := { excludeDirs := [⟨".cache", none⟩] } }

theorem ofPatterns_cacheless : ofPatterns true [] [".cache"] = .ok cacheless := rfl

theorem lstat_outputTree : outputTree.lstat "out" = .ok (["work", "out"], .dir) := by
  rw [Files.lstat, find_outputTree (.inl rfl)]
  rfl

theorem news_outputTree {way : Place} (hway : way = [".cache", "Old.class"] ∨ way = ["Quiet.class"]) :
    cacheless.News outputTree "out" ["work", "out"] way := by
  refine ⟨⟨.file (.bytes []), ?_, by decide⟩, ?_, ?_, ?_⟩
  · rw [below_outputTree]
    rcases hway with rfl | rfl <;> decide
  · rcases hway with rfl | rfl <;> decide
  · rcases hway with rfl | rfl <;> decide
  · rintro ⟨bytes, _, hsum⟩
    cases hsum

/-- The directory is watched from now on, and the file right in it is scheduled. -/
theorem tree_scheduled_throughout_outputTree :
    "out/Quiet.class" ∈ (handle outputTree cacheless ⟨.created, "out"⟩).batching.pending ∧
    (handle outputTree cacheless ⟨.created, "out"⟩).dirs.lookup ["work", "out"] = some "out" := by
  obtain ⟨hpending, _, hdirs⟩ := tree_scheduled_throughout cacheless outputTree "out" ["work", "out"]
    lstat_outputTree (by decide)
  refine ⟨(hpending _).2 (.inr ⟨["Quiet.class"], news_outputTree (.inr rfl), by decide⟩), ?_⟩
  exact (hdirs [] (.inl rfl)).trans (by decide)

/-- A file in a directory that is excluded, and not watched, is scheduled. -/
theorem outputTree_schedules_secluded :
    ofPatterns true [] [".cache"] = .ok cacheless ∧ cacheless.Secluded [".cache", "Old.class"] ∧
    "out/.cache/Old.class" ∈ (handle outputTree cacheless ⟨.created, "out"⟩).batching.pending ∧
    (handle outputTree cacheless ⟨.created, "out"⟩).dirs.lookup ["work", "out", ".cache"] = none := by
  refine ⟨ofPatterns_cacheless, ⟨".cache", by decide, by decide⟩, ?_, ?_⟩
  · rw [mem_pending_tree lstat_outputTree (by decide)]
    exact .inr ⟨[".cache", "Old.class"], news_outputTree (.inl rfl), by decide⟩
  · have hbelow : ([".cache"], .dir) ∈ outputTree.below ["work", "out"] := by
      rw [below_outputTree]
      decide
    exact (lookup_dirs_tree lstat_outputTree (by decide) (.inr hbelow)).trans (by decide)

end Watcher

end JvmLint
