import JvmLint.Proofs.Dedup
import JvmLint.Proofs.LoadedClasses
import JvmLint.Proofs.Outcomes
import JvmLint.Watch.Watcher
import Mathlib.Data.List.ReduceOption

/-!
# Files looked at one after the other

The record of a file is the sum of the bytes it was last read with: a look that finds nothing to read leaves it
as it is (`sum?_after`). So a file counts as unchanged if it has the bytes that it was last read with, be it that it
could not be read since then.
-/

namespace JvmLint

/-- What a look at a path shows: the bytes of a file, or nothing if it cannot be read. -/
def Files.sight (f : Files) (path : String) : Option (List UInt8) := (f.read path).toOption

inductive Sighting where
  /-- A file is taken as seen. -/
  | taken (f : Files) (path : String)
  /-- A file was written or created, and is looked at. -/
  | checked (f : Files) (path : String)
  /-- A file is gone. -/
  | gone (path : String)

/-- What the looks at a path showed since it was last gone, the oldest first. -/
def observe (path : String) (seen : List (Option (List UInt8))) : Sighting → List (Option (List UInt8))
  | .taken f p | .checked f p => if p = path then seen ++ [f.sight p] else seen
  | .gone p => if p = path then [] else seen

def observed (path : String) (history : List Sighting) : List (Option (List UInt8)) :=
  history.foldl (observe path) []

def lastRead (seen : List (Option (List UInt8))) : Option (List UInt8) := seen.reduceOption.getLast?

theorem lastRead_concat (seen : List (Option (List UInt8))) (o : Option (List UInt8)) :
    lastRead (seen ++ [o]) = o.or (lastRead seen) := by
  unfold lastRead
  rw [List.reduceOption_append, List.getLast?_append]
  cases o <;> rfl

theorem lastRead_of_last {seen : List (Option (List UInt8))} {bytes : List UInt8}
    (h : seen.getLast? = some (some bytes)) : lastRead seen = some bytes := by
  obtain ⟨before, rfl⟩ := List.getLast?_eq_some_iff.1 h
  rw [lastRead_concat, Option.some_or]

theorem mem_of_lastRead {seen : List (Option (List UInt8))} {bytes : List UInt8} (h : lastRead seen = some bytes) :
    some bytes ∈ seen :=
  List.reduceOption_mem_iff.1 (List.mem_of_getLast? h)

namespace Contents

def step (c : Contents) : Sighting → Contents
  | .taken f path => c.remember f path
  | .checked f path => (c.changed f path).2
  | .gone path => c.forget path

def after (c : Contents) (history : List Sighting) : Contents := history.foldl step c

/-! ## The record of one path -/

def sum? (c : Contents) (path : String) : Option UInt64 := c.sums.lookup path

variable {c : Contents} {f : Files} {p path : String}

theorem sum?_set (sum : UInt64) : (c.set p sum).sum? path = if p = path then some sum else c.sum? path := by
  unfold sum? set
  by_cases h : p = path
  · simp [h]
  · have hne : (path == p) = false := by simpa using Ne.symm h
    rw [if_neg h, List.lookup_cons, hne]
    exact lookup_filter_of_ne (Ne.symm h)

theorem sum?_forget : (c.forget p).sum? path = if p = path then none else c.sum? path := by
  unfold sum? forget
  by_cases h : p = path
  · rw [if_pos h, h, lookup_filter_self]
  · rw [if_neg h, lookup_filter_of_ne (Ne.symm h)]

theorem sum?_remember :
    (c.remember f p).sum? path = if p = path then ((f.sight p).map XxHash.sum).or (c.sum? path) else c.sum? path := by
  unfold remember Files.sight
  cases f.read p with
  | error e => exact (ite_self _).symm
  | ok bytes => exact sum?_set _

/-- Looking at a file records it as taking it as seen does. -/
theorem sum?_changed : (c.changed f p).2.sum? path = (c.remember f p).sum? path := by
  unfold changed remember
  cases f.read p with
  | error e => rfl
  | ok bytes =>
    show (c.note p bytes).2.sum? path = (c.set p (XxHash.sum bytes)).sum? path
    unfold note
    by_cases hsame : c.sums.lookup p = some (XxHash.sum bytes)
    · rw [if_pos hsame, sum?_set]
      split
      · next h => rw [← h, sum?, hsame]
      · rfl
    · rw [if_neg hsame]

def Records (c : Contents) (f : Files) (path : String) : Prop :=
  ∃ bytes, f.sight path = some bytes ∧ c.sum? path = some (XxHash.sum bytes)

theorem changed_eq_false : (c.changed f p).1 = false ↔ c.Records f p := by
  unfold changed Records Files.sight
  cases f.read p with
  | error e =>
    show (true = false) ↔ ∃ b, (none : Option (List UInt8)) = some b ∧ c.sum? p = some (XxHash.sum b)
    simp
  | ok bytes =>
    show (c.note p bytes).1 = false ↔ ∃ b, some bytes = some b ∧ c.sum? p = some (XxHash.sum b)
    unfold note sum?
    by_cases hsame : c.sums.lookup p = some (XxHash.sum bytes)
    · simp [hsame]
    · simp [hsame]

/-! ## A history of looks -/

/-- What one look at some path does to the record of a path. -/
theorem sum?_step {seen : List (Option (List UInt8))} (h : c.sum? path = (lastRead seen).map XxHash.sum)
    (s : Sighting) :
    (c.step s).sum? path = (lastRead (observe path seen s)).map XxHash.sum := by
  -- a look that shows nothing adds nothing to what was read, and leaves the record
  have hlook : ∀ f p, (c.remember f p).sum? path =
      (lastRead (if p = path then seen ++ [f.sight p] else seen)).map XxHash.sum := by
    intro f p
    rw [sum?_remember]
    by_cases hp : p = path
    · rw [if_pos hp, if_pos hp, lastRead_concat, h]
      cases f.sight p <;> rfl
    · rw [if_neg hp, if_neg hp, h]
  cases s with
  | taken f p => exact hlook f p
  | checked f p => exact sum?_changed.trans (hlook f p)
  | gone p =>
    show (c.forget p).sum? path = (lastRead (if p = path then [] else seen)).map XxHash.sum
    rw [sum?_forget]
    by_cases hp : p = path
    · rw [if_pos hp, if_pos hp]; rfl
    · rw [if_neg hp, if_neg hp, h]

theorem sum?_after (history : List Sighting) (path : String) :
    (after {} history).sum? path = (lastRead (observed path history)).map XxHash.sum := by
  suffices h : ∀ (c : Contents) seen, c.sum? path = (lastRead seen).map XxHash.sum →
      (c.after history).sum? path = (lastRead (history.foldl (observe path) seen)).map XxHash.sum from h {} [] rfl
  induction history with
  | nil => exact fun _ _ h => h
  | cons s history ih => exact fun c seen h => ih _ _ (sum?_step h s)

end Contents

/-! ## What watchers look at -/

namespace Files

variable {f : Files} {root : String}

theorem walk_of_error {e : OsFault} (hlstat : f.lstat root = .error e) (leaveOut : String → Bool) :
    f.walk leaveOut root = .error e := by
  unfold walk
  rw [hlstat]
  rfl

theorem walk_eq {p : Place} {n : FileNode} (hlstat : f.lstat root = .ok (p, n)) (leaveOut : String → Bool) :
    f.walk leaveOut root = .ok ((root, p, n) :: ((if n = .dir then f.below p else []).filter fun x =>
      !(if x.2 = .dir then x.1 else x.1.dropLast).any leaveOut).map fun x => (pathBelow root x.1, p ++ x.1, x.2)) := by
  unfold walk
  rw [hlstat]
  rfl

end Files

namespace Watcher

variable {f : Files} {w w' : Watcher} {root path : String} {found : List (String × Place × FileNode)}

def filesAmong [GlobLibrary] (filter : WatchFilter) (found : List (String × Place × FileNode)) : List String :=
  (found.filter fun x => !(x.2.2 = .dir || filter.excludesFile x.1)).map (·.1)

theorem filesAmong_cons [GlobLibrary] (filter : WatchFilter) (x : String × Place × FileNode) :
    filesAmong filter (x :: found) =
      if x.2.2 = .dir || filter.excludesFile x.1 then filesAmong filter found else x.1 :: filesAmong filter found := by
  unfold filesAmong
  by_cases h : (decide (x.2.2 = .dir) || filter.excludesFile x.1) = true
  · simp only [List.filter_cons, h, Bool.not_true]
    rfl
  · simp only [List.filter_cons, h]
    rfl

def sightings [GlobLibrary] (f : Files) (filter : WatchFilter) (e : FileEvent) : List Sighting :=
  if e.kind = .created && f.isDir e.path then
    if filter.excludesDir e.path then []
    else
      match f.walk (fun _ => false) e.path with
      | .ok found => (filesAmong filter found).map (.checked f)
      | .error _ => []
  else if filter.excludesFile e.path then []
  else if e.kind = .created then [.checked f e.path]
  else [.gone e.path]

def run [GlobLibrary] (w : Watcher) (events : List (Files × FileEvent)) : Watcher :=
  events.foldl (fun w e => handle e.1 w e.2) w

theorem filter_check : (w.check f path).filter = w.filter := by
  unfold check changed
  dsimp only
  split <;> rfl

theorem contents_check : (w.check f path).contents = (w.contents.changed f path).2 := by
  unfold check changed
  dsimp only
  split <;> rfl

theorem filter_foldl_check (paths : List String) : (paths.foldl (fun w path => w.check f path) w).filter = w.filter :=
  List.foldlRecOn (motive := fun v : Watcher => v.filter = w.filter) paths _ rfl fun _ hv _ _ => filter_check.trans hv

theorem contents_foldl_check (paths : List String) :
    (paths.foldl (fun w path => w.check f path) w).contents = w.contents.after (paths.map (.checked f)) := by
  induction paths generalizing w with
  | nil => rfl
  | cons path paths ih =>
    rw [List.foldl_cons, ih, contents_check]
    rfl

/-- The files of a tree are looked at one by one. -/
theorem enqueueTree_eq [GlobLibrary] (hwalk : f.walk (fun _ => false) root = .ok found) :
    w.enqueueTree f root = (filesAmong w.filter found).foldl (fun w path => w.check f path) w := by
  unfold enqueueTree
  simp only [hwalk]
  clear hwalk
  induction found generalizing w with
  | nil => rfl
  | cons x found ih =>
    obtain ⟨path, p, n⟩ := x
    rw [List.foldl_cons, filesAmong_cons, ih]
    dsimp only
    by_cases hskip : (decide (n = .dir) || w.filter.excludesFile path) = true
    · rw [if_pos hskip, if_pos hskip]
    · rw [if_neg hskip, if_neg hskip, filter_check, List.foldl_cons]

def enter (dirs : WatchedDirs) (found : List (String × Place × FileNode)) : WatchedDirs :=
  found.foldl (fun dirs x => if x.2.2 = .dir then dirs.add x.2.1 (Path.clean x.1) else dirs) dirs

/-- Watching a tree schedules nothing. Its files are looked at if they are to count as seen. -/
theorem watchTree_eq [GlobLibrary] {seed : Bool} (hwalk : f.walk w.filter.excludesDir root = .ok found) :
    w.watchTree f seed root = .ok { w with
      contents := w.contents.after (if seed then (filesAmong w.filter found).map (.taken f) else [])
      dirs := enter w.dirs found } := by
  unfold watchTree
  rw [hwalk]
  refine congrArg Except.ok ?_
  clear hwalk
  induction found generalizing w with
  | nil => cases seed <;> rfl
  | cons x found ih =>
    obtain ⟨path, p, n⟩ := x
    rw [List.foldl_cons, ih, filesAmong_cons]
    dsimp only
    by_cases hdir : n = .dir
    · simp only [hdir, if_true, decide_true, Bool.true_or]
      rfl
    · by_cases hexcluded : w.filter.excludesFile path = true
      · simp only [hdir, hexcluded, if_false, decide_false, Bool.false_or, Bool.not_true, Bool.and_false]
        cases seed <;> simp [enter, hdir]
      · cases seed <;> simp [hdir, hexcluded, enter, remember, Contents.after, Contents.step]

theorem handle_tree [GlobLibrary] {f : Files} {w : Watcher} {top : String} (hdir : f.isDir top = true)
    (hopen : w.filter.excludesDir top = false)
    {entered : List (String × Place × FileNode)} (hentered : f.walk w.filter.excludesDir top = .ok entered)
    (hwalk : f.walk (fun _ => false) top = .ok found) :
    handle f w ⟨.created, top⟩ =
      (filesAmong w.filter found).foldl (fun w path => w.check f path) { w with dirs := enter w.dirs entered } := by
  unfold handle
  simp only [hdir, hopen, watchTree_eq hentered, enqueueTree_eq hwalk]
  rfl

/-- An event makes the watcher look at some files, and leaves what it excludes as it is. -/
theorem seen_handle [GlobLibrary] (e : FileEvent) :
    (handle f w e).filter = w.filter ∧ (handle f w e).contents = w.contents.after (sightings f w.filter e) := by
  obtain ⟨kind, path⟩ := e
  unfold sightings
  by_cases htree : (decide (kind = .created) && f.isDir path) = true
  · rw [if_pos htree]
    obtain ⟨hkind, hdir⟩ := Bool.and_eq_true_iff.1 htree
    obtain rfl := of_decide_eq_true hkind
    cases hopen : w.filter.excludesDir path with
    | true => simp [handle, hdir, hopen, Contents.after]
    | false =>
      cases hlstat : f.lstat path with
      | error e =>
        have hwalk := Files.walk_of_error hlstat
        have hnone : w.watchTree f false path = .error e := by rw [watchTree, hwalk]; rfl
        simp [handle, hdir, hopen, hnone, hwalk, Contents.after]
      | ok x =>
        rw [handle_tree hdir hopen (Files.walk_eq hlstat _) (Files.walk_eq hlstat _), Files.walk_eq hlstat]
        exact ⟨filter_foldl_check _, contents_foldl_check _⟩
  · rw [if_neg htree]
    unfold handle
    rw [if_neg htree]
    dsimp only
    by_cases hexcluded : w.filter.excludesFile path = true
    · rw [if_pos hexcluded, if_pos hexcluded]
      exact ⟨rfl, rfl⟩
    · rw [if_neg hexcluded, if_neg hexcluded]
      by_cases hkind : kind = .created
      · rw [if_pos hkind, if_pos hkind]
        exact ⟨filter_check, contents_check⟩
      · rw [if_neg hkind, if_neg hkind]
        exact ⟨rfl, rfl⟩

theorem seen_run [GlobLibrary] (events : List (Files × FileEvent)) :
    (w.run events).contents = w.contents.after (events.flatMap fun e => sightings e.1 w.filter e.2) := by
  induction events generalizing w with
  | nil => rfl
  | cons e events ih =>
    obtain ⟨hfilter, hcontents⟩ := seen_handle (f := e.1) (w := w) e.2
    show ((handle e.1 w e.2).run events).contents = _
    rw [ih, hfilter, hcontents, List.flatMap_cons]
    exact (List.foldl_append ..).symm

theorem seen_watchRoot [GlobLibrary] (h : w.watchRoot f root = .ok w') :
    ∃ paths : List String, w'.contents = w.contents.after (paths.map (.taken f)) := by
  unfold watchRoot at h
  cases hstat : f.stat root with
  | error e => rw [hstat] at h; cases h
  | ok node =>
    rw [hstat] at h
    cases node with
    | dir =>
      cases hlstat : f.lstat root with
      | error e =>
        rw [watchTree, Files.walk_of_error hlstat] at h
        cases h
      | ok x =>
        rw [watchTree_eq (Files.walk_eq hlstat _)] at h
        cases h
        exact ⟨_, rfl⟩
    | file _ | link _ =>
      cases hdir : f.locate true (Path.dir root) with
      | error e => simp only [hdir] at h; cases h
      | ok p => simp only [hdir] at h; cases h; exact ⟨[root], rfl⟩

theorem seen_watch [GlobLibrary] {roots : List String} (h : w.watch f roots = .ok w') :
    ∃ paths : List String, w'.contents = w.contents.after (paths.map (.taken f)) := by
  unfold watch at h
  induction roots generalizing w with
  | nil => cases h; exact ⟨[], rfl⟩
  | cons root roots ih =>
    rw [List.foldlM_cons] at h
    obtain ⟨v, hv, hrest⟩ := except_bind_eq_ok.1 h
    obtain ⟨first, hfirst⟩ := seen_watchRoot hv
    obtain ⟨rest, hcontents⟩ := ih hrest
    refine ⟨first ++ rest, ?_⟩
    rw [hcontents, hfirst, List.map_append]
    exact (List.foldl_append ..).symm

/-- What a watcher has seen: the files that were there when it started, and what the events made it look at. -/
theorem seen_start [GlobLibrary] {g : Files} {files dirs roots : List String}
    (h : (do (← ofPatterns true files dirs).watch g roots) = .ok w) (events : List (Files × FileEvent)) :
    ∃ paths : List String, (w.run events).contents =
      Contents.after {} (paths.map (.taken g) ++ events.flatMap fun e => sightings e.1 w.filter e.2) := by
  obtain ⟨v, hv, hwatch⟩ := except_bind_eq_ok.1 h
  have hfresh : v.contents = {} := by
    obtain ⟨_, _, hrest⟩ := except_bind_eq_ok.1 hv
    obtain ⟨_, _, hdone⟩ := except_bind_eq_ok.1 hrest
    cases hdone
    rfl
  obtain ⟨paths, hpaths⟩ := seen_watch hwatch
  refine ⟨paths, ?_⟩
  rw [seen_run, hpaths, hfresh]
  exact (List.foldl_append ..).symm

end Watcher

namespace Contents

variable {f : Files} {path : String} {history : List Sighting}

/-! ## Changes -/

/-- The sums tell the bytes apart that a path showed. -/
def SumsTellApart (seen : List (Option (List UInt8))) : Prop :=
  ∀ a b, some a ∈ seen → some b ∈ seen → XxHash.sum a = XxHash.sum b → a = b

/-- A file can be read again after it could not, and shows the bytes that it was read with before. -/
def Regains (seen : List (Option (List UInt8))) (now : Option (List UInt8)) : Prop :=
  seen.getLast? = some none ∧ now ≠ none ∧ lastRead seen = now

theorem unchanged_iff (htell : SumsTellApart (f.sight path :: observed path history)) :
    ((after {} history).changed f path).1 = false ↔
      ∃ bytes, f.sight path = some bytes ∧ lastRead (observed path history) = some bytes := by
  rw [changed_eq_false, Records]
  refine exists_congr fun bytes => and_congr_right fun hnow => ?_
  rw [sum?_after, Option.map_eq_some_iff]
  constructor
  · rintro ⟨last, hlast, hsum⟩
    have hsame : last = bytes :=
      htell last bytes (List.mem_cons_of_mem _ (mem_of_lastRead hlast)) (List.mem_cons.2 (.inl hnow.symm)) hsum
    rw [hlast, hsame]
  · exact fun hlast => ⟨bytes, hlast, rfl⟩

/-- A file that cannot be read counts as changed. One that shows what it showed at the last look, since it was last
gone, does not. One that shows something else, or is looked at for the first time, counts as changed unless it could
not be read at the last look and has the bytes it was read with before. Watchers keep contents of this kind. -/
theorem changed_unless_regained [GlobLibrary] (history : List Sighting) (f : Files) (path : String)
    (htell : SumsTellApart (f.sight path :: observed path history)) :
    (f.sight path = none → ((after {} history).changed f path).1 = true) ∧
    (∀ bytes, f.sight path = some bytes → (observed path history).getLast? = some (some bytes) →
      ((after {} history).changed f path).1 = false) ∧
    ((observed path history).getLast? ≠ some (f.sight path) →
      (((after {} history).changed f path).1 = false ↔ Regains (observed path history) (f.sight path))) ∧
    (∀ {g : Files} {files dirs roots : List String} {w : Watcher} (events : List (Files × FileEvent)),
      (do (← Watcher.ofPatterns true files dirs).watch g roots) = .ok w →
      ∃ paths : List String, (w.run events).contents =
        after {} (paths.map (.taken g) ++ events.flatMap fun e => Watcher.sightings e.1 w.filter e.2)) := by
  have hiff := unchanged_iff htell
  refine ⟨?_, ?_, ?_, fun events hstart => Watcher.seen_start hstart events⟩
  · intro hnone
    rw [← Bool.not_eq_false, hiff, hnone]
    simp
  · intro bytes hnow hlast
    exact hiff.2 ⟨bytes, hnow, lastRead_of_last hlast⟩
  · intro hdiffers
    rw [hiff]
    constructor
    · rintro ⟨bytes, hnow, hread⟩
      refine ⟨?_, by simp [hnow], hread.trans hnow.symm⟩
      cases hlast : (observed path history).getLast? with
      | none =>
        rw [List.getLast?_eq_none_iff] at hlast
        rw [hlast] at hread
        cases hread
      | some o =>
        cases o with
        | none => rfl
        | some b =>
          have hb : b = bytes := Option.some.inj ((lastRead_of_last hlast).symm.trans hread)
          exact absurd (by rw [hlast, hnow, hb]) hdiffers
    · rintro ⟨_, hsome, hread⟩
      obtain ⟨bytes, hnow⟩ := Option.ne_none_iff_exists'.1 hsome
      exact ⟨bytes, hnow, hread.trans hnow⟩

end Contents

def shelf (c : Option (List UInt8)) : Files :=
  { nodes := c.toList.map fun bytes => (["A.class"], .file (.bytes bytes)) }

theorem sight_shelf (c : Option (List UInt8)) : (shelf c).sight "A.class" = c := by
  cases c with
  | none =>
    have hlocate : (shelf none).locate true "A.class" = .ok ["A.class"] := by
      have hnames : (shelf none).locate true "A.class" = (shelf none).follow true 40 [] ["A.class"] := rfl
      rw [hnames, Files.follow]
      rfl
    have hfind : (shelf none).find true "A.class" = .error .noEntry := by rw [Files.find, hlocate]; rfl
    rw [Files.sight, Files.read, Files.content, hfind]
    rfl
  | some bytes =>
    have hread : (shelf (some bytes)).read "A.class" = .ok bytes :=
      Files.read_plain (c := .bytes bytes) (by decide) (by decide) rfl
    rw [Files.sight, hread]
    rfl

namespace Contents

/-- A file that was there from the start is written anew. The same bytes once more are no change, the old ones are. -/
theorem changed_unless_regained_shelf :
    ((after {} [.taken (shelf (some [1])) "A.class", .checked (shelf (some [2])) "A.class"]).changed
      (shelf (some [2])) "A.class").1 = false ∧
    ((after {} [.taken (shelf (some [1])) "A.class", .checked (shelf (some [2])) "A.class"]).changed
      (shelf (some [1])) "A.class").1 = true := by
  have hseen : observed "A.class" [.taken (shelf (some [1])) "A.class", .checked (shelf (some [2])) "A.class"] =
      [some [1], some [2]] := by
    simp [observed, observe, sight_shelf]
  have htell : ∀ now, now = some [1] ∨ now = some [2] → SumsTellApart (now :: [some [1], some [2]]) := by
    intro now hnow a b ha hb hsum
    have hdiffer : XxHash.sum [1] ≠ XxHash.sum [2] := by decide
    grind
  constructor
  · obtain ⟨_, hsame, _⟩ := changed_unless_regained
      [.taken (shelf (some [1])) "A.class", .checked (shelf (some [2])) "A.class"] (shelf (some [2])) "A.class"
      (by rw [hseen, sight_shelf]; exact htell _ (.inr rfl))
    exact hsame [2] (sight_shelf _) (by rw [hseen]; rfl)
  · obtain ⟨_, _, hother, _⟩ := changed_unless_regained
      [.taken (shelf (some [1])) "A.class", .checked (shelf (some [2])) "A.class"] (shelf (some [1])) "A.class"
      (by rw [hseen, sight_shelf]; exact htell _ (.inl rfl))
    rw [hseen, sight_shelf] at hother
    rw [← Bool.not_eq_false, hother (by decide)]
    rintro ⟨hlast, _⟩
    cases hlast

/-- A file that could not be read for a while is back as it was, and does not count as changed. -/
theorem shelf_regained :
    observed "A.class" [.checked (shelf (some [1])) "A.class", .checked (shelf none) "A.class"] = [some [1], none] ∧
    (shelf (some [1])).sight "A.class" = some [1] ∧
    ((after {} [.checked (shelf (some [1])) "A.class", .checked (shelf none) "A.class"]).changed
      (shelf (some [1])) "A.class").1 = false := by
  have hseen : observed "A.class" [.checked (shelf (some [1])) "A.class", .checked (shelf none) "A.class"] =
      [some [1], none] := by
    simp [observed, observe, sight_shelf]
  refine ⟨hseen, sight_shelf _, ?_⟩
  rw [changed_eq_false]
  refine ⟨[1], sight_shelf _, ?_⟩
  rw [sum?_after, hseen]
  rfl

end Contents

end JvmLint
