import JvmLint.Proofs.Outcomes
import JvmLint.Proofs.WatchedInputs

/-!
# Files found once

In a tree without links a path leads to one place only, whatever steps up and empty pieces it takes, and this place is
the path as seen from the root (`PlainTree.absolute_of_find`). So discovery, which tells files apart by the path from
the root, returns a file once, and returns it if one of the roots stands for it under a spelling that is not excluded.
A walk has to read the directories that it enters, and reports those that it cannot read.
-/

namespace JvmLint

namespace Files

variable {f : Files} {p d way : Place} {n : FileNode} {root path : String}

/-! ## Trees -/

/-- Directories and files as they are kept on a disk: everything has a name of its own in a directory, nothing is a link,
and the working directory is there. -/
structure PlainTree (f : Files) : Prop where
  named : ∀ x ∈ f.nodes, x.1 ≠ [] ∧ ∀ name ∈ x.1, Path.IsName name
  once : (f.nodes.map (·.1)).Nodup
  inDir : ∀ x ∈ f.nodes, f.node? x.1.dropLast = some .dir
  unlinked : ∀ x ∈ f.nodes, ∀ target, x.2 ≠ .link target
  working : f.node? f.cwd = some .dir

def placePath (p : Place) : String := "/" ++ "/".intercalate p

theorem follow_missing {last : Bool} {links : Nat} {at_ : Place} {name : String} {rest : List String}
    (hname : name ≠ "." ∧ name ≠ ".." ∧ name.utf8ByteSize ≤ 255) (hnone : f.node? (at_ ++ [name]) = none) :
    f.follow last links at_ (name :: rest) = if rest.isEmpty then .ok (at_ ++ [name]) else .error .noEntry := by
  obtain ⟨hdot, hup, hsize⟩ := hname
  rw [follow]
  simp [hdot, hup, Nat.not_lt.2 hsize, hnone]

theorem follow_file {last : Bool} {links : Nat} {at_ : Place} {name : String} {rest : List String} {c : Content}
    (hname : name ≠ "." ∧ name ≠ ".." ∧ name.utf8ByteSize ≤ 255) (hfile : f.node? (at_ ++ [name]) = some (.file c)) :
    f.follow last links at_ (name :: rest) = if rest.isEmpty then .ok (at_ ++ [name]) else .error .notDirectory := by
  obtain ⟨hdot, hup, hsize⟩ := hname
  rw [follow]
  simp [hdot, hup, Nat.not_lt.2 hsize, hfile]

section
variable (hf : f.PlainTree)
include hf

theorem PlainTree.node?_iff (hp : p ≠ []) : f.node? p = some n ↔ (p, n) ∈ f.nodes := by
  have hlookup : f.node? p = f.nodes.lookup p := by rw [node?, if_neg (by simpa using hp)]
  have honce := hf.once
  rw [hlookup]
  generalize f.nodes = nodes at honce
  induction nodes with
  | nil => simp
  | cons x nodes ih =>
    obtain ⟨q, m⟩ := x
    rw [List.map_cons, List.nodup_cons] at honce
    by_cases hq : p = q
    · subst hq
      have hnew : (p, n) ∉ nodes := fun h => honce.1 (List.mem_map.2 ⟨_, h, rfl⟩)
      simp [hnew, eq_comm]
    · have hne : (p == q) = false := by simpa using hq
      rw [List.lookup_cons, hne]
      simp [ih honce.2, hq]

theorem PlainTree.isName (h : f.node? p = some n) : ∀ name ∈ p, Path.IsName name := by
  by_cases hp : p = []
  · simp [hp]
  · exact (hf.named _ ((hf.node?_iff hp).1 h)).2

theorem PlainTree.not_link {target : String} : f.node? p ≠ some (.link target) := by
  intro h
  by_cases hp : p = []
  · simp [hp, node?] at h
  · exact hf.unlinked _ ((hf.node?_iff hp).1 h) target rfl

theorem PlainTree.isDir_above (hway : way ≠ []) (h : f.node? (p ++ way) = some n) : f.node? p = some .dir := by
  induction way using List.reverseRecOn generalizing n with
  | nil => exact absurd rfl hway
  | append_singleton way name ih =>
    have habove := hf.inDir _ ((hf.node?_iff (by simp)).1 h)
    rw [← List.append_assoc, List.dropLast_concat] at habove
    by_cases hnil : way = []
    · rwa [hnil, List.append_nil] at habove
    · exact ih hnil habove

theorem PlainTree.mem_below_iff : (way, n) ∈ f.below p ↔ way ≠ [] ∧ f.node? (p ++ way) = some n := by
  rw [below, List.mem_mergeSort, List.mem_filterMap]
  constructor
  · rintro ⟨⟨q, m⟩, hmem, hsome⟩
    simp only [Option.ite_none_right_eq_some, Option.some.injEq, Prod.mk.injEq, Bool.and_eq_true,
      List.isPrefixOf_iff_prefix] at hsome
    obtain ⟨⟨⟨rest, rfl⟩, hne⟩, rfl, rfl⟩ := hsome
    rw [List.drop_left]
    exact ⟨by simpa using hne, (hf.node?_iff (hf.named _ hmem).1).2 hmem⟩
  · rintro ⟨hway, hnode⟩
    refine ⟨(p ++ way, n), (hf.node?_iff (by simp [hway])).1 hnode, ?_⟩
    simp [hway, List.isPrefixOf_iff_prefix]

/-! ## Paths and places -/

theorem PlainTree.follow_last (links : Nat) (at_ : Place) (names : List String) :
    f.follow false links at_ names = f.follow true links at_ names := by
  fun_induction f.follow true links at_ names with
  | case1 => rw [follow]
  | case2 links at_ rest ih => rw [follow, if_pos rfl, ih]
  | case3 links at_ rest hdot ih => rw [follow, if_neg hdot, if_pos rfl, ih]
  | case7 links at_ name rest hdot hup hsize here hdir ih => rw [follow_dir ⟨hdot, hup, Nat.not_lt.1 hsize⟩ hdir, ih]
  | case10 | case11 | case12 => exact absurd (by assumption) hf.not_link
  | case4 links at_ name rest hdot hup hsize => rw [follow, if_neg hdot, if_neg hup, if_pos hsize]
  | case5 links at_ name rest hdot hup hsize here hnone hrest
  | case6 links at_ name rest hdot hup hsize here hnone hrest =>
    simp [follow_missing ⟨hdot, hup, Nat.not_lt.1 hsize⟩ hnone, hrest, here]
  | case8 links at_ name rest hdot hup hsize here c hfile hrest
  | case9 links at_ name rest hdot hup hsize here c hfile hrest =>
    simp [follow_file ⟨hdot, hup, Nat.not_lt.1 hsize⟩ hfile, hrest, here]

end

theorem stack_of_names {r : Bool} {done : List String} (h : ∀ name ∈ done, Path.IsName name) :
    Path.Clean.Stack r done := by
  induction done with
  | nil => exact .nil
  | cons name done ih =>
    obtain ⟨hname, hdone⟩ := List.forall_mem_cons.1 h
    exact .name hname (ih hdone)

theorem normal_place (h : ∀ name ∈ p, Path.IsName name) : Path.Clean.Normal ⟨true, p⟩ :=
  stack_of_names fun name hname => h name (List.mem_reverse.1 hname)

theorem of_placePath (h : ∀ name ∈ p, Path.IsName name) : Path.Clean.of (placePath p) = ⟨true, p⟩ :=
  (normal_place h).of_text

theorem placePath_injective {q : Place} (hp : ∀ name ∈ p, Path.IsName name) (hq : ∀ name ∈ q, Path.IsName name)
    (h : placePath p = placePath q) : p = q := by
  have hsame := of_placePath hp
  rw [h, of_placePath hq] at hsame
  exact (Path.Clean.mk.inj hsame).2.symm

/-- Names are followed as pieces are taken up: a step up leaves a directory whose name was taken up. -/
theorem PlainTree.place_of_follow (hf : f.PlainTree) {last : Bool} {links : Nat} {at_ : Place} {names : List String}
    (hat : ∀ name ∈ at_, Path.IsName name) (hnames : ∀ name ∈ names, name ≠ "" ∧ '/' ∉ name.toList)
    (h : f.follow last links at_ names = .ok p) : names.foldl (Path.Clean.step true) at_.reverse = p.reverse := by
  fun_induction f.follow last links at_ names with
  | case1 => rw [Except.ok.inj h]; rfl
  | case2 links at_ rest ih =>
    rw [List.foldl_cons, Path.Clean.step_dot]
    exact ih hat (List.forall_mem_cons.1 hnames).2 h
  | case3 links at_ rest hdot ih =>
    have hup : Path.Clean.step true at_.reverse ".." = at_.dropLast.reverse := by
      cases at_ using List.reverseRecOn with
      | nil => rfl
      | append_singleton at_ name =>
        rw [List.reverse_append, List.dropLast_concat]
        exact Path.Clean.step_up_name (hat name (by simp))
    rw [List.foldl_cons, hup]
    exact ih (fun name hname => hat name (List.dropLast_subset _ hname)) (List.forall_mem_cons.1 hnames).2 h
  | case7 links at_ name rest hdot hup hsize here hdir ih =>
    have hname := hf.isName hdir
    rw [List.foldl_cons, Path.Clean.step_name (hname name (by simp [here]))]
    have hreverse : name :: at_.reverse = here.reverse := by simp [here]
    rw [hreverse]
    exact ih hname (List.forall_mem_cons.1 hnames).2 h
  | case5 links at_ name rest hdot hup _ here _ hrest | case8 links at_ name rest hdot hup _ here _ _ hrest =>
    obtain ⟨hne, hslash⟩ := hnames name List.mem_cons_self
    rw [List.isEmpty_iff.1 hrest, ← Except.ok.inj h, List.foldl_cons, Path.Clean.step_name ⟨hne, hdot, hup, hslash⟩]
    simp [here]
  | case4 | case6 | case9 => cases h
  | case10 | case11 | case12 => exact absurd (by assumption) hf.not_link

theorem foldl_step_namesOf (r : Bool) (done : List String) (s : String) :
    (namesOf s).foldl (Path.Clean.step r) done = (Text.splitOn s '/').foldl (Path.Clean.step r) done := by
  have hskip : ∀ pieces : List String, (pieces.filter (· != "")).foldl (Path.Clean.step r) done =
      pieces.foldl (Path.Clean.step r) done := by
    intro pieces
    induction pieces generalizing done with
    | nil => rfl
    | cons piece pieces ih =>
      by_cases hpiece : piece = ""
      · simp [hpiece, ih]
      · simp [hpiece, ih]
  unfold namesOf
  dsimp only
  split
  · rw [List.foldl_concat, Path.Clean.step_dot, hskip]
  · rw [hskip]

theorem piece_of_namesOf {s name : String} (h : name ∈ namesOf s) : name ≠ "" ∧ '/' ∉ name.toList := by
  have hpiece : ∀ name ∈ (Text.splitOn s '/').filter (· != ""), name ≠ "" ∧ '/' ∉ name.toList := by
    intro name hname
    obtain ⟨hsplit, hne⟩ := List.mem_filter.1 hname
    exact ⟨by simpa using hne, Text.notMem_of_mem_splitOn hsplit⟩
  unfold namesOf at h
  dsimp only at h
  split at h
  · rcases List.mem_append.1 h with h | h
    · exact hpiece name h
    · rw [List.mem_singleton.1 h]
      decide
  · exact hpiece name h

theorem find_eq_ok {last : Bool} : f.find last path = .ok (p, n) ↔ f.locate last path = .ok p ∧ f.node? p = some n := by
  unfold find
  rw [except_bind_eq_ok]
  constructor
  · rintro ⟨q, hq, hnode⟩
    cases hat : f.node? q with
    | none => rw [hat] at hnode; cases hnode
    | some m => rw [hat] at hnode; cases hnode; exact ⟨hq, hat⟩
  · rintro ⟨hlocate, hnode⟩
    exact ⟨p, hlocate, by rw [hnode]; rfl⟩

section
variable (hf : f.PlainTree)
include hf

theorem PlainTree.find_last (path : String) : f.find false path = f.find true path := by
  unfold find locate
  rw [hf.follow_last]

/-- A path as seen from the root names the place that it leads to. -/
theorem PlainTree.absolute_of_find {last : Bool} (h : f.find last path = .ok (p, n)) :
    f.absolute path = placePath p ∧ path ≠ "" := by
  obtain ⟨hlocate, -⟩ := find_eq_ok.1 h
  unfold locate at hlocate
  by_cases hne : path = ""
  · rw [if_pos hne] at hlocate
    cases hlocate
  refine ⟨?_, hne⟩
  rw [if_neg hne] at hlocate
  split at hlocate
  · cases hlocate
  have hcwd : ∀ name ∈ f.cwd, Path.IsName name := hf.isName hf.working
  have hseen : Path.seen f.workingDir path = ⟨true, p⟩ := by
    have hpieces : ∀ name ∈ namesOf path, name ≠ "" ∧ '/' ∉ name.toList := fun name hname => piece_of_namesOf hname
    unfold Path.seen
    by_cases habs : Path.isAbsolute path = true
    · rw [if_pos habs] at hlocate ⊢
      have hplace := hf.place_of_follow (by simp) hpieces hlocate
      rw [foldl_step_namesOf, ← List.reverse_eq_iff] at hplace
      exact congrArg (Path.Clean.mk true) hplace
    · rw [if_neg habs] at hlocate ⊢
      have hplace := hf.place_of_follow hcwd hpieces hlocate
      have hdir : Path.Clean.of f.workingDir = ⟨true, f.cwd⟩ := of_placePath hcwd
      rw [foldl_step_namesOf, ← List.reverse_eq_iff] at hplace
      rw [hdir]
      exact congrArg (Path.Clean.mk true) hplace
  rw [absolute, Path.absolute_eq_text f.workingDir_ne_empty, hseen]
  rfl

end

/-! ## Walks -/

/-- How a walk from a directory with a path comes upon something, and by which path: it is right in the directory, or it
is come upon from a directory in it that can be read. Hidden directories are passed by. -/
inductive Reached (f : Files) (n : FileNode) : Place → String → Place → String → Prop
  | entry {d : Place} {root name : String} :
    f.node? (d ++ [name]) = some n → (n = .dir → Text.startsWith name "." = false) →
    Reached f n d root (d ++ [name]) (Path.join root name)
  | inside {d p : Place} {root name path : String} :
    f.node? (d ++ [name]) = some .dir → Text.startsWith name "." = false → readFault? (Path.join root name) = none →
    Reached f n (d ++ [name]) (Path.join root name) p path → Reached f n d root p path

theorem isHidden_cons {name : String} (hway : way ≠ []) :
    isHidden (name :: way) n = (Text.startsWith name "." || isHidden way n) := by
  unfold isHidden
  by_cases hn : n = .dir
  · simp [hn]
  · simp [hn, List.dropLast_cons_of_ne_nil hway]

theorem isHidden_singleton {name : String} :
    isHidden [name] n = false ↔ (n = .dir → Text.startsWith name "." = false) := by
  unfold isHidden
  by_cases hn : n = .dir <;> simp [hn]

theorem isOpen_cons {name : String} (hway : way ≠ []) :
    isOpen root (name :: way) = ((readFault? (Path.join root name)).isNone && isOpen (Path.join root name) way) := by
  rw [isOpen]
  exact hway

theorem join_eq_text {s : String} (hroot : root ≠ "") (hs : s ≠ "") :
    Path.join root s = ((Path.Clean.of root).after s).text := by
  rw [Path.join, if_neg hroot, if_neg hs, Path.clean, Path.Clean.of_append hroot]

theorem intercalate_ne_empty (hway : way ≠ []) (hnames : ∀ name ∈ way, Path.IsName name) : "/".intercalate way ≠ "" := by
  intro h
  have hsplit := Text.splitOn_intercalate hway fun name hname => (hnames name hname).noSlash
  rw [h] at hsplit
  exact (hnames "" (by rw [← hsplit]; decide)).ne_empty rfl

theorem join_ne_empty {name : String} (hroot : root ≠ "") (hname : name ≠ "") : Path.join root name ≠ "" := by
  rw [join_eq_text hroot hname]
  exact ((Path.Clean.normal_of root).after name).text_ne_empty

/-- A way may be gone name by name. -/
theorem pathBelow_cons {name : String} (hroot : root ≠ "") (hname : Path.IsName name) (hway : way ≠ [])
    (hnames : ∀ name ∈ way, Path.IsName name) : pathBelow (Path.join root name) way = pathBelow root (name :: way) := by
  have hnormal := (Path.Clean.normal_of root).after name
  have hfirst : Path.Clean.of (Path.join root name) = (Path.Clean.of root).after name := by
    rw [join_eq_text hroot hname.ne_empty, hnormal.of_text]
  have hwhole : "/".intercalate (name :: way) = name ++ "/" ++ "/".intercalate way := by
    obtain ⟨next, rest, rfl⟩ := List.exists_cons_of_ne_nil hway
    simp
  rw [pathBelow, pathBelow, join_eq_text (join_ne_empty hroot hname.ne_empty) (intercalate_ne_empty hway hnames), hfirst,
    join_eq_text hroot (intercalate_ne_empty (by simp) (List.forall_mem_cons.2 ⟨hname, hnames⟩)), hwhole,
    Path.Clean.after_append]

theorem pathBelow_singleton (root name : String) : pathBelow root [name] = Path.join root name := by
  simp [pathBelow]

theorem pathBelow_place (hp : ∀ name ∈ p, Path.IsName name) (hway : way ≠ []) (hnames : ∀ name ∈ way, Path.IsName name) :
    pathBelow (placePath p) way = placePath (p ++ way) := by
  have hne : placePath p ≠ "" := by simp [placePath]
  have hsplit := Text.splitOn_intercalate hway fun name hname => (hnames name hname).noSlash
  have hafter : (Path.Clean.mk true p).after ("/".intercalate way) = ⟨true, p ++ way⟩ := by
    have hsegments := Path.segments_after_names (p := ⟨true, p⟩) (s := "/".intercalate way) (by rw [hsplit]; exact hnames)
    rw [hsplit] at hsegments
    rw [← hsegments]
    rfl
  rw [pathBelow, join_eq_text hne (intercalate_ne_empty hway hnames), of_placePath hp, hafter]
  rfl

section
variable (hf : f.PlainTree)
include hf

theorem PlainTree.way_of_reached (h : f.Reached n d root p path) (hroot : root ≠ "") :
    ∃ way, (way, n) ∈ f.below d ∧ isHidden way n = false ∧ isOpen root way = true ∧ p = d ++ way ∧
      path = pathBelow root way := by
  induction h with
  | @entry d root name hnode hvisible =>
    refine ⟨[name], hf.mem_below_iff.2 ⟨by simp, hnode⟩, isHidden_singleton.2 hvisible, rfl, rfl, ?_⟩
    rw [pathBelow_singleton]
  | @inside d p root name path hdir hvisible hread _ ih =>
    have hname : Path.IsName name := hf.isName hdir name (by simp)
    obtain ⟨way, hbelow, hhidden, hopen, rfl, rfl⟩ := ih (join_ne_empty hroot hname.ne_empty)
    obtain ⟨hway, hnode⟩ := hf.mem_below_iff.1 hbelow
    have hnames : ∀ name ∈ way, Path.IsName name := fun m hm => hf.isName hnode m (by simp [hm])
    refine ⟨name :: way, hf.mem_below_iff.2 ⟨by simp, by simpa using hnode⟩, ?_, ?_, by simp, ?_⟩
    · rw [isHidden_cons hway, hvisible, hhidden]
      rfl
    · rw [isOpen_cons hway, hread, hopen]
      rfl
    · rw [pathBelow_cons hroot hname hway hnames]

theorem PlainTree.reached_of_way (hbelow : (way, n) ∈ f.below d) (hvisible : isHidden way n = false)
    (hopen : isOpen root way = true) (hroot : root ≠ "") : f.Reached n d root (d ++ way) (pathBelow root way) := by
  induction way generalizing d root with
  | nil => exact absurd rfl (hf.mem_below_iff.1 hbelow).1
  | cons name way ih =>
    obtain ⟨-, hnode⟩ := hf.mem_below_iff.1 hbelow
    by_cases hway : way = []
    · subst hway
      rw [pathBelow_singleton]
      exact .entry hnode (isHidden_singleton.1 hvisible)
    have hnames : ∀ m ∈ name :: way, Path.IsName m := fun m hm => hf.isName hnode m (List.mem_append_right _ hm)
    obtain ⟨hname, hrest⟩ := List.forall_mem_cons.1 hnames
    rw [← List.singleton_append, ← List.append_assoc] at hnode ⊢
    rw [isHidden_cons hway, Bool.or_eq_false_iff] at hvisible
    rw [isOpen_cons hway, Bool.and_eq_true, Option.isNone_iff_eq_none] at hopen
    refine .inside (hf.isDir_above hway hnode) hvisible.1 hopen.1 ?_
    rw [List.singleton_append, ← pathBelow_cons hroot hname hway hrest]
    exact ih (hf.mem_below_iff.2 ⟨hway, hnode⟩) hvisible.2 hopen.2 (join_ne_empty hroot hname.ne_empty)

end

/-! ## Names at the end of paths -/

theorem isName_last_join {name : String} (hroot : root ≠ "") (hname : Path.IsName name) :
    Path.IsName (Path.last (Path.join root name)) := by
  have hlast : Path.last name = name := by rw [Path.last, Text.splitOn_eq_singleton hname.noSlash]; rfl
  rw [join_eq_text hroot hname.ne_empty, Path.last_after (Path.Clean.normal_of root) (by rwa [hlast]), hlast]
  exact hname

section
variable (hf : f.PlainTree)
include hf

theorem PlainTree.isName_last_reached (h : f.Reached n d root p path) (hroot : root ≠ "") :
    Path.IsName (Path.last path) := by
  induction h with
  | @entry d root name hnode => exact isName_last_join hroot (hf.isName hnode name (by simp))
  | @inside d p root name path hdir _ _ _ ih =>
    exact ih (join_ne_empty hroot (hf.isName hdir name (by simp)).ne_empty)

/-- Names that lead to a file end in a name: dots lead to directories. -/
theorem PlainTree.name_of_follow {last : Bool} {links : Nat} {at_ : Place} {names : List String} {c : Content}
    (hdir : f.node? at_ = some .dir) (hnames : ∀ name ∈ names, name ≠ "" ∧ '/' ∉ name.toList)
    (h : f.follow last links at_ names = .ok p) (hfile : f.node? p = some (.file c)) :
    ∃ before name, names = before ++ [name] ∧ Path.IsName name := by
  have hlonger : ∀ {first : String} {rest : List String}, (∃ before name, rest = before ++ [name] ∧ Path.IsName name) →
      ∃ before name, first :: rest = before ++ [name] ∧ Path.IsName name := by
    rintro first _ ⟨before, name, rfl, hname⟩
    exact ⟨first :: before, name, rfl, hname⟩
  fun_induction f.follow last links at_ names with
  | case1 => rw [← Except.ok.inj h, hdir] at hfile; cases hfile
  | case2 links at_ rest ih => exact hlonger (ih hdir (List.forall_mem_cons.1 hnames).2 h)
  | case3 links at_ rest hdot ih =>
    have habove : f.node? at_.dropLast = some .dir := by
      cases at_ using List.reverseRecOn with
      | nil => rfl
      | append_singleton at_ name =>
        rw [List.dropLast_concat]
        exact hf.isDir_above (by simp) hdir
    exact hlonger (ih habove (List.forall_mem_cons.1 hnames).2 h)
  | case7 links at_ name rest hdot hup hsize here hhere ih => exact hlonger (ih hhere (List.forall_mem_cons.1 hnames).2 h)
  | case5 links at_ name rest hdot hup _ here hnone => rw [← Except.ok.inj h, hnone] at hfile; cases hfile
  | case8 links at_ name rest hdot hup _ here _ _ hrest =>
    obtain ⟨hne, hslash⟩ := hnames name List.mem_cons_self
    exact ⟨[], name, by simpa using hrest, hne, hdot, hup, hslash⟩
  | case4 | case6 | case9 => cases h
  | case10 | case11 | case12 => exact absurd (by assumption) hf.not_link

theorem PlainTree.isName_last_find {c : Content} (h : f.find true path = .ok (p, .file c)) :
    Path.IsName (Path.last path) := by
  have hne := (hf.absolute_of_find h).2
  obtain ⟨hlocate, hfile⟩ := find_eq_ok.1 h
  unfold locate at hlocate
  rw [if_neg hne] at hlocate
  split at hlocate
  · cases hlocate
  have hstart : f.node? (if Path.isAbsolute path = true then [] else f.cwd) = some .dir := by
    split
    · rfl
    · exact hf.working
  obtain ⟨before, name, hnames, hname⟩ := hf.name_of_follow hstart (fun name => piece_of_namesOf) hlocate hfile
  -- a slash at the end would make the last name a dot
  have hopen : Text.endsWith path "/" = false := by
    rw [← Bool.not_eq_true]
    intro hslash
    unfold namesOf at hnames
    dsimp only at hnames
    rw [if_pos hslash] at hnames
    exact hname.ne_dot (List.cons.inj (List.append_inj_right' hnames rfl)).1.symm
  have hlast : Path.last path ≠ "" := by
    intro hempty
    rcases Path.eq_last_or path with ⟨hpath, -⟩ | ⟨front, hpath, -⟩
    · exact hne (hpath.trans hempty)
    · rw [hempty] at hpath
      rw [Text.endsWith, ← Bool.not_eq_true, List.isSuffixOf_iff_suffix] at hopen
      exact hopen ⟨front, hpath.symm⟩
  obtain ⟨pieces, hpieces⟩ := Path.splitOn_eq_last path
  have hsame : pieces.filter (· != "") ++ [Path.last path] = before ++ [name] := by
    rw [← hnames, namesOf]
    simp [hopen, hpieces, hlast]
  rw [(List.cons.inj (List.append_inj_right' hsame rfl)).1]
  exact hname

end

/-! ## What roots stand for -/

/-- A root stands for a file, under a spelling of its path: it is the file, or a directory from which a walk comes upon
it. -/
inductive StandsFor (f : Files) (raw : String) : Place → String → Prop
  | itself {p : Place} {c : Content} :
    f.find true (Text.trim raw) = .ok (p, .file c) → StandsFor f raw p (Text.trim raw)
  | below {d p : Place} {path : String} {c : Content} :
    f.find true (Text.trim raw) = .ok (d, .dir) → f.Reached (.file c) d (Text.trim raw) p path → StandsFor f raw p path

/-- From a root, a walk comes upon a directory that it cannot read by the path that it has for it. -/
structure Refuses (f : Files) (raw path : String) (e : OsFault) : Prop where
  reached : ∃ d p, f.find true (Text.trim raw) = .ok (d, .dir) ∧ f.Reached .dir d (Text.trim raw) p path
  fault : readFault? path = some e

def Met.failure? : Met → Option LoadFailure
  | file _ => none
  | refused path e => some { path, error := e.text }

def refusals (f : Files) (raw : String) : List LoadFailure :=
  let root := Text.trim raw
  if root = "" then []
  else
    match f.stat root with
    | .ok .dir => (f.walkBelow root).filterMap Met.failure?
    | _ => []

def failure? (f : Files) (raw : String) : Option LoadFailure :=
  let root := Text.trim raw
  if root = "" then none
  else
    match f.stat root with
    | .error e => some { path := root, error := e.text }
    | .ok .dir => none
    | .ok _ => if (inputKind? root).isNone then some { path := root, error := "not a .class file or jar" } else none

section
variable (hf : f.PlainTree) {raw : String}
include hf

/-- A spelling leads to the file that it is a spelling of. -/
theorem PlainTree.file_of_standsFor (h : f.StandsFor raw p path) :
    (∃ c, f.node? p = some (.file c)) ∧ f.absolute path = placePath p ∧ inputKind? (placePath p) = inputKind? path := by
  have hkind : f.absolute path = placePath p → Path.IsName (Path.last path) →
      inputKind? (placePath p) = inputKind? path := by
    intro habs hname
    rw [← habs, ← inputKind?_last, absolute, Path.last_absolute f.workingDir_ne_empty hname, inputKind?_last]
  cases h with
  | @itself _ c hfind =>
    have habs := (hf.absolute_of_find hfind).1
    exact ⟨⟨c, (find_eq_ok.1 hfind).2⟩, habs, hkind habs (hf.isName_last_find hfind)⟩
  | @below d _ _ c hfind hreached =>
    obtain ⟨hroot, hne⟩ := hf.absolute_of_find hfind
    have hlast := hf.isName_last_reached hreached hne
    obtain ⟨way, hbelow, -, -, rfl, rfl⟩ := hf.way_of_reached hreached hne
    obtain ⟨hway, hnode⟩ := hf.mem_below_iff.1 hbelow
    have hnames := hf.isName hnode
    have habs : f.absolute (pathBelow (Text.trim raw) way) = placePath (d ++ way) := by
      rw [f.absolute_pathBelow hne, absolute, Path.absolute_clean f.workingDir_ne_empty, ← absolute, hroot,
        pathBelow_place (fun m hm => hnames m (by simp [hm])) hway fun m hm => hnames m (by simp [hm])]
    exact ⟨⟨c, hnode⟩, habs, hkind habs hlast⟩

theorem PlainTree.mem_walkBelow_iff (hfind : f.find true root = .ok (d, .dir)) (hroot : root ≠ "") {m : Met} :
    m ∈ f.walkBelow root ↔ (∃ p c path, m = .file path ∧ f.Reached (.file c) d root p path) ∨
      ∃ p path e, m = .refused path e ∧ f.Reached .dir d root p path ∧ readFault? path = some e := by
  rw [walkBelow, hf.find_last, hfind]
  constructor
  · intro h
    obtain ⟨⟨way, n⟩, hbelow, hsome⟩ := List.mem_filterMap.1 h
    simp only [Option.ite_none_left_eq_some, Bool.or_eq_true, Bool.not_eq_true', not_or, Bool.not_eq_true,
      Bool.not_eq_false] at hsome
    obtain ⟨⟨hvisible, hopen⟩, hsome⟩ := hsome
    have hreached := hf.reached_of_way hbelow hvisible hopen hroot
    cases n with
    | dir =>
      rw [if_pos rfl] at hsome
      obtain ⟨e, hfault, rfl⟩ := Option.map_eq_some_iff.1 hsome
      exact .inr ⟨_, _, e, rfl, hreached, hfault⟩
    | file c => exact .inl ⟨_, c, _, by simpa [eq_comm] using hsome, hreached⟩
    | link target => exact absurd (hf.mem_below_iff.1 hbelow).2 hf.not_link
  · rintro (⟨p, c, path, rfl, hreached⟩ | ⟨p, path, e, rfl, hreached, hfault⟩)
    · obtain ⟨way, hbelow, hvisible, hopen, -, rfl⟩ := hf.way_of_reached hreached hroot
      exact List.mem_filterMap.2 ⟨(way, .file c), hbelow, by simp [hvisible, hopen]⟩
    · obtain ⟨way, hbelow, hvisible, hopen, -, rfl⟩ := hf.way_of_reached hreached hroot
      exact List.mem_filterMap.2 ⟨(way, .dir), hbelow, by simp [hvisible, hopen, hfault]⟩

theorem PlainTree.mem_filesBelow_iff (hfind : f.find true root = .ok (d, .dir)) (hroot : root ≠ "") :
    path ∈ f.filesBelow root ↔ ∃ p c, f.Reached (.file c) d root p path := by
  simp only [filesBelow, List.mem_filterMap, hf.mem_walkBelow_iff hfind hroot]
  constructor
  · rintro ⟨_, ⟨p, c, _, rfl, hreached⟩ | ⟨_, _, _, rfl, -⟩, hfile⟩
    · exact ⟨p, c, Option.some.inj hfile ▸ hreached⟩
    · cases hfile
  · rintro ⟨p, c, hreached⟩
    exact ⟨.file path, .inl ⟨p, c, path, rfl, hreached⟩, rfl⟩

theorem PlainTree.mem_refusals_iff {x : LoadFailure} :
    x ∈ f.refusals raw ↔ ∃ path e, f.Refuses raw path e ∧ x = { path, error := e.text } := by
  unfold refusals stat
  dsimp only
  constructor
  · intro h
    by_cases hne : Text.trim raw = ""
    · simp [hne] at h
    rw [if_neg hne] at h
    cases hfind : f.find true (Text.trim raw) with
    | error e =>
      rw [hfind] at h
      cases h
    | ok found =>
      obtain ⟨d, n⟩ := found
      rw [hfind] at h
      cases n with
      | dir =>
        obtain ⟨m, hm, hx⟩ := List.mem_filterMap.1 h
        rcases (hf.mem_walkBelow_iff hfind hne).1 hm with ⟨_, _, _, rfl, -⟩ | ⟨p, path, e, rfl, hreached, hfault⟩
        · cases hx
        · exact ⟨path, e, ⟨⟨d, p, hfind, hreached⟩, hfault⟩, (Option.some.inj hx).symm⟩
      | file _ | link _ => cases h
  · rintro ⟨path, e, ⟨⟨d, p, hfind, hreached⟩, hfault⟩, rfl⟩
    have hne := (hf.absolute_of_find hfind).2
    rw [if_neg hne, hfind]
    exact List.mem_filterMap.2
      ⟨.refused path e, (hf.mem_walkBelow_iff hfind hne).2 (.inr ⟨p, path, e, rfl, hreached, hfault⟩), rfl⟩

theorem PlainTree.mem_spelledFrom_iff : path ∈ f.spelledFrom raw ↔ ∃ p, f.StandsFor raw p path := by
  unfold spelledFrom stat
  dsimp only
  constructor
  · intro h
    by_cases hne : Text.trim raw = ""
    · simp [hne] at h
    rw [if_neg hne] at h
    cases hfind : f.find true (Text.trim raw) with
    | error e =>
      rw [hfind] at h
      cases h
    | ok found =>
      obtain ⟨d, n⟩ := found
      rw [hfind] at h
      cases n with
      | dir =>
        obtain ⟨p, c, hreached⟩ := (hf.mem_filesBelow_iff hfind hne).1 h
        exact ⟨p, .below hfind hreached⟩
      | file c => exact ⟨d, List.mem_singleton.1 h ▸ .itself hfind⟩
      | link target => exact absurd (find_eq_ok.1 hfind).2 hf.not_link
  · rintro ⟨p, h⟩
    cases h with
    | itself hfind =>
      rw [if_neg (hf.absolute_of_find hfind).2, hfind]
      exact List.mem_singleton.2 rfl
    | below hfind hreached =>
      have hne := (hf.absolute_of_find hfind).2
      rw [if_neg hne, hfind]
      exact (hf.mem_filesBelow_iff hfind hne).2 ⟨p, _, hreached⟩

/-- Discovery takes a class file or jar up if a root stands for it under a spelling that is not excluded. -/
theorem PlainTree.has_discover_iff [GlobLibrary] {roots : List String} {exclude : List Pattern} {c : Content}
    (hfile : f.node? p = some (.file c)) (hkind : (inputKind? (placePath p)).isSome) :
    (discover f roots exclude).Has f (placePath p) ↔
      ∃ raw ∈ roots, ∃ path, f.StandsFor raw p path ∧ isExcludedFile exclude path = false := by
  rw [has_discover]
  constructor
  · rintro ⟨path, hpath, hfree, habs⟩
    obtain ⟨raw, hraw, hspelled⟩ := List.mem_flatMap.1 (List.mem_filter.1 hpath).1
    obtain ⟨q, hq⟩ := hf.mem_spelledFrom_iff.1 hspelled
    obtain ⟨⟨_, hqfile⟩, hqabs, -⟩ := hf.file_of_standsFor hq
    obtain rfl : q = p := placePath_injective (hf.isName hqfile) (hf.isName hfile) (hqabs.symm.trans habs)
    exact ⟨raw, hraw, path, hq, hfree⟩
  · rintro ⟨raw, hraw, path, hstands, hfree⟩
    obtain ⟨-, habs, hsame⟩ := hf.file_of_standsFor hstands
    have hspelled : path ∈ roots.flatMap f.spelledFrom :=
      List.mem_flatMap.2 ⟨raw, hraw, hf.mem_spelledFrom_iff.2 ⟨p, hstands⟩⟩
    have hinput : (inputKind? path).isSome = true := by
      rw [← hsame]
      exact hkind
    refine ⟨path, ?_, hfree, habs⟩
    rw [candidates, List.mem_filter]
    exact ⟨hspelled, hinput⟩

end

end Files

namespace Discovered

variable {f : Files} {exclude : List Pattern} {d e : Discovered} {raw : String}

/-! ## What a root adds -/

theorem failures_add [GlobLibrary] (path : String) : (d.add f exclude path).failures = d.failures := by
  unfold add
  split
  · rfl
  · split <;> rfl

theorem failures_foldl_meet [GlobLibrary] (ms : List Files.Met) :
    (ms.foldl (meet f exclude) d).failures = d.failures ++ ms.filterMap Files.Met.failure? := by
  induction ms generalizing d with
  | nil => simp
  | cons m ms ih =>
    rw [List.foldl_cons, ih]
    cases m with
    | file path => simp [meet, failures_add, List.filterMap_cons, Files.Met.failure?]
    | refused path e => simp [meet, fail, Files.Met.failure?]

theorem failures_addRoot [GlobLibrary] :
    (d.addRoot f exclude raw).failures = d.failures ++ ((f.failure? raw).toList ++ f.refusals raw) := by
  unfold addRoot Files.failure? Files.refusals
  dsimp only
  by_cases hblank : Text.trim raw = ""
  · simp [hblank]
  rw [if_neg hblank, if_neg hblank, if_neg hblank]
  cases f.stat (Text.trim raw) with
  | error e => simp [fail]
  | ok n =>
    cases n with
    | dir => simp [failures_foldl_meet]
    | file _ | link _ =>
      by_cases hkind : (inputKind? (Text.trim raw)).isNone = true
      · simp [hkind, fail]
      · simp [hkind, failures_add]

/-- A root that fails adds no input. -/
theorem inputs_addRoot_of_failure [GlobLibrary] (h : (f.failure? raw).isSome) :
    (d.addRoot f exclude raw).inputs = d.inputs := by
  unfold Files.failure? at h
  unfold addRoot
  dsimp only at h ⊢
  by_cases hblank : Text.trim raw = ""
  · rw [if_pos hblank]
  rw [if_neg hblank] at h ⊢
  cases hstat : f.stat (Text.trim raw) with
  | error e => rfl
  | ok n =>
    rw [hstat] at h
    cases n with
    | dir => cases h
    | file _ | link _ =>
      by_cases hkind : (inputKind? (Text.trim raw)).isNone = true
      · simp [hkind, fail]
      · simp [hkind] at h

theorem inputs_add_congr [GlobLibrary] (h : d.inputs = e.inputs) (path : String) :
    (d.add f exclude path).inputs = (e.add f exclude path).inputs := by
  unfold add
  rw [h]
  split
  · exact h
  · split
    · exact h
    · rfl

theorem inputs_meet_congr [GlobLibrary] (h : d.inputs = e.inputs) (m : Files.Met) :
    (d.meet f exclude m).inputs = (e.meet f exclude m).inputs := by
  cases m with
  | file path =>
    simp only [meet]
    exact inputs_add_congr h path
  | refused path e => exact h

theorem inputs_foldl_congr {α : Type} {step : Discovered → α → Discovered}
    (hstep : ∀ d e a, d.inputs = e.inputs → (step d a).inputs = (step e a).inputs) (l : List α) (h : d.inputs = e.inputs) :
    (l.foldl step d).inputs = (l.foldl step e).inputs := by
  induction l generalizing d e with
  | nil => exact h
  | cons a l ih => exact ih (hstep d e a h)

/-- What a root adds to the inputs depends on the inputs alone. -/
theorem inputs_addRoot_congr [GlobLibrary] (h : d.inputs = e.inputs) (raw : String) :
    (d.addRoot f exclude raw).inputs = (e.addRoot f exclude raw).inputs := by
  unfold addRoot
  dsimp only
  split
  · exact h
  split
  · exact h
  · exact inputs_foldl_congr (fun _ _ m h => inputs_meet_congr h m) _ h
  · split
    · exact h
    · exact inputs_add_congr h _

/-- Inputs are told apart by their paths from the root, and are of the kind that their names say. -/
structure Orderly (f : Files) (d : Discovered) : Prop where
  distinct : (d.inputs.map fun i => f.absolute i.path).Nodup
  kinds : ∀ i ∈ d.inputs, inputKind? i.path = some i.kind

theorem Orderly.add [GlobLibrary] (h : d.Orderly f) (path : String) : (d.add f exclude path).Orderly f := by
  unfold Discovered.add
  split
  · exact h
  next kind hkind =>
    split
    · exact h
    next hnew =>
      have hnot : f.absolute path ∉ d.inputs.map fun i => f.absolute i.path := by
        intro hmem
        obtain ⟨i, hi, hpath⟩ := List.mem_map.1 hmem
        exact hnew (Bool.or_eq_true_iff.2 (.inr (List.any_eq_true.2 ⟨i, hi, beq_iff_eq.2 hpath⟩)))
      refine ⟨?_, ?_⟩
      · rw [List.map_append, List.map_singleton]
        refine List.nodup_append.2 ⟨h.distinct, by simp, fun a ha b hb hab => hnot ?_⟩
        rw [← List.mem_singleton.1 hb, ← hab]
        exact ha
      · intro i hi
        rcases List.mem_append.1 hi with hi | hi
        · exact h.kinds i hi
        · rw [List.mem_singleton.1 hi]
          exact hkind

theorem Orderly.meet [GlobLibrary] (h : d.Orderly f) (m : Files.Met) : (d.meet f exclude m).Orderly f := by
  cases m with
  | file path =>
    simp only [Discovered.meet]
    exact h.add path
  | refused path e => exact ⟨h.distinct, h.kinds⟩

theorem Orderly.addRoot [GlobLibrary] (h : d.Orderly f) (raw : String) : (d.addRoot f exclude raw).Orderly f := by
  unfold Discovered.addRoot
  dsimp only
  split
  · exact h
  split
  · exact ⟨h.distinct, h.kinds⟩
  · exact List.foldlRecOn (motive := Orderly f) _ _ h fun _ he m _ => he.meet m
  · split
    · exact ⟨h.distinct, h.kinds⟩
    · exact h.add _

theorem orderly_discover [GlobLibrary] (f : Files) (roots : List String) (exclude : List Pattern) :
    (discover f roots exclude).Orderly f :=
  List.foldlRecOn (motive := Orderly f) _ _ ⟨.nil, by simp⟩ fun _ he raw _ => he.addRoot raw

end Discovered

theorem failures_discover [GlobLibrary] (f : Files) (roots : List String) (exclude : List Pattern) :
    (discover f roots exclude).failures = roots.flatMap fun raw => (f.failure? raw).toList ++ f.refusals raw := by
  have hfold : ∀ d : Discovered, (roots.foldl (Discovered.addRoot f exclude) d).failures =
      d.failures ++ roots.flatMap fun raw => (f.failure? raw).toList ++ f.refusals raw := by
    induction roots with
    | nil => simp
    | cons raw roots ih =>
      intro d
      rw [List.foldl_cons, ih, Discovered.failures_addRoot, List.flatMap_cons, List.append_assoc]
  exact hfold {}

theorem inputs_discover_of_failure [GlobLibrary] {f : Files} {raw : String} (h : (f.failure? raw).isSome)
    (before after : List String)
    (exclude : List Pattern) :
    (discover f (before ++ raw :: after) exclude).inputs = (discover f (before ++ after) exclude).inputs := by
  unfold discover
  rw [List.foldl_append, List.foldl_append, List.foldl_cons]
  exact Discovered.inputs_foldl_congr (fun _ _ raw h => Discovered.inputs_addRoot_congr h raw) after
    (Discovered.inputs_addRoot_of_failure h)

/-- In a tree without links, discovery returns each file once, and misses none: the inputs have different paths from the
root, they are files of the tree with the kind that their names say, and a class file or jar is among them if and only if
a root stands for it under a spelling of its path that is not excluded. Roots that are missing, or files of another kind,
give a failure each time they are mentioned, and nothing else. The only other failures are those of directories that a
walk comes upon and cannot read. -/
theorem each_file_found_once [GlobLibrary] {f : Files} (hf : f.PlainTree) (roots : List String)
    (exclude : List Pattern) :
    ((discover f roots exclude).inputs.map fun i => f.absolute i.path).Nodup ∧
    (∀ i ∈ (discover f roots exclude).inputs, ∃ p c, f.node? p = some (.file c) ∧
      f.absolute i.path = Files.placePath p ∧ inputKind? (Files.placePath p) = some i.kind) ∧
    (∀ p c, f.node? p = some (.file c) → (inputKind? (Files.placePath p)).isSome →
      ((∃ i ∈ (discover f roots exclude).inputs, f.absolute i.path = Files.placePath p) ↔
        ∃ raw ∈ roots, ∃ path, f.StandsFor raw p path ∧ isExcludedFile exclude path = false)) ∧
    (discover f roots exclude).failures = (roots.flatMap fun raw => (f.failure? raw).toList ++ f.refusals raw) ∧
    (∀ raw x, x ∈ f.refusals raw ↔ ∃ path e, f.Refuses raw path e ∧ x = { path, error := e.text }) ∧
    ((∀ raw ∈ roots, ∀ path e, ¬ f.Refuses raw path e) →
      (discover f roots exclude).failures = roots.filterMap f.failure?) ∧
    (∀ before raw after, roots = before ++ raw :: after → (f.failure? raw).isSome →
      (discover f roots exclude).inputs = (discover f (before ++ after) exclude).inputs) := by
  have horderly := Discovered.orderly_discover f roots exclude
  refine ⟨horderly.distinct, ?_, fun p c hfile hkind => hf.has_discover_iff hfile hkind,
    failures_discover f roots exclude, fun raw x => hf.mem_refusals_iff, ?_, ?_⟩
  · intro i hi
    obtain ⟨path, hpath, -, habs⟩ := has_discover.1 ⟨i, hi, rfl⟩
    obtain ⟨raw, -, hspelled⟩ := List.mem_flatMap.1 (List.mem_filter.1 hpath).1
    obtain ⟨p, hp⟩ := hf.mem_spelledFrom_iff.1 hspelled
    obtain ⟨⟨c, hfile⟩, hplace, -⟩ := hf.file_of_standsFor hp
    have hkind := horderly.kinds i hi
    refine ⟨p, c, hfile, habs.symm.trans hplace, ?_⟩
    rw [← hplace, habs, f.inputKind?_absolute (by rw [hkind]; rfl), hkind]
  · intro hreads
    have hnone : ∀ raw ∈ roots, (f.failure? raw).toList ++ f.refusals raw = (f.failure? raw).toList := by
      intro raw hraw
      rw [List.append_right_eq_self, List.eq_nil_iff_forall_not_mem]
      intro x hx
      obtain ⟨path, e, hrefuses, -⟩ := hf.mem_refusals_iff.1 hx
      exact hreads raw hraw path e hrefuses
    rw [failures_discover, List.flatMap_congr hnone, List.filterMap_eq_flatMap_toList]
  · rintro before raw after rfl hfails
    exact inputs_discover_of_failure hfails before after exclude

theorem plainTree_outputTree : outputTree.PlainTree where
  named := by decide
  once := by decide
  inDir := by decide
  unlinked := by simp [outputTree]
  working := by decide

theorem find_hidden_outputTree :
    outputTree.find true "out/../out/.cache" = .ok (["work", "out", ".cache"], .dir) := by
  have hlocate : outputTree.locate true "out/../out/.cache" =
      outputTree.follow true 40 ["work"] ["out", "..", "out", ".cache"] := rfl
  refine Files.find_eq_ok.2 ⟨?_, by decide⟩
  rw [hlocate, Files.follow_dir (by decide) (by decide), Files.follow, if_neg (by decide), if_pos rfl]
  show outputTree.follow true 40 ["work"] ["out", ".cache"] = .ok ["work", "out", ".cache"]
  rw [Files.follow_dir (by decide) (by decide), Files.follow_dir (by decide) (by decide), Files.follow]
  rfl

theorem stat_missing_outputTree : outputTree.stat "missing" = .error ⟨"stat", "missing", .noEntry⟩ := by
  have hlocate : outputTree.locate true "missing" = .ok ["work", "missing"] := by
    have hnames : outputTree.locate true "missing" = outputTree.follow true 40 ["work"] ["missing"] := rfl
    rw [hnames, Files.follow_missing (by decide) (by decide)]
    rfl
  rw [Files.stat, Files.find, hlocate]
  rfl

theorem failure?_missing_outputTree :
    outputTree.failure? "missing" = some ⟨"missing", "stat missing: no such file or directory"⟩ ∧
      outputTree.refusals "missing" = [] := by
  have htrim : Text.trim "missing" = "missing" := by decide
  rw [Files.failure?, Files.refusals, htrim, stat_missing_outputTree]
  exact ⟨rfl, rfl⟩

/-- A hidden directory that is given itself is walked, and a root that is not there is reported each time. -/
theorem each_file_found_once_outputTree :
    (∃ i ∈ (discover outputTree ["missing", " out/../out/.cache ", "missing"] outputExcluded).inputs,
      outputTree.absolute i.path = "/work/out/.cache/Old.class") ∧
    (discover outputTree ["missing", " out/../out/.cache ", "missing"] outputExcluded).failures =
      [⟨"missing", "stat missing: no such file or directory"⟩,
        ⟨"missing", "stat missing: no such file or directory"⟩] := by
  obtain ⟨-, -, hfound, hfailures, -, -, -⟩ := each_file_found_once plainTree_outputTree
    ["missing", " out/../out/.cache ", "missing"] outputExcluded
  have htrim : Text.trim " out/../out/.cache " = "out/../out/.cache" := by decide
  constructor
  · refine (hfound ["work", "out", ".cache", "Old.class"] (.bytes []) (by decide) (by decide)).2
      ⟨" out/../out/.cache ", by decide, "out/.cache/Old.class", ?_, by decide⟩
    refine .below (c := .bytes []) (by rw [htrim]; exact find_hidden_outputTree) ?_
    have hpath : Path.join (Text.trim " out/../out/.cache ") "Old.class" = "out/.cache/Old.class" := by decide
    rw [← hpath]
    exact .entry (d := ["work", "out", ".cache"]) (by decide) (by decide)
  · have hgiven : outputTree.failure? " out/../out/.cache " = none := by
      rw [Files.failure?, htrim, Files.stat, find_hidden_outputTree]
      rfl
    have hread : outputTree.refusals " out/../out/.cache " = [] := by
      rw [Files.refusals, htrim, Files.stat, find_hidden_outputTree, if_neg (by decide), Files.walkBelow,
        plainTree_outputTree.find_last, find_hidden_outputTree]
      decide +kernel
    rw [hfailures]
    simp [failure?_missing_outputTree, hgiven, hread]

end JvmLint
