import JvmLint.App.Run
import JvmLint.Proofs.Hierarchies
import JvmLint.Proofs.JarEntries
import JvmLint.Proofs.LoadedClasses
import JvmLint.Proofs.Outcomes
import JvmLint.Proofs.PathLaws

/-!
# Classes by name

A classpath looks a name up as the path of a file or as the name of an entry, and the name of the class
it hands out is the one written in that file. Nothing holds the two together, so a class of another
name comes back exactly where a file is out of place. Where every file lies at the place of the class
in it, each class has the name that it was asked by, and walks go by what classes say of each other.
-/

namespace JvmLint

open Relation

/-! ## Names and places -/

/-- A name as class files spell it: all its pieces are names. -/
def IsInternal (name : String) : Prop := ∀ piece ∈ Text.splitOn name '/', Path.IsName piece

instance (name : String) : Decidable (IsInternal name) :=
  inferInstanceAs (Decidable (∀ piece ∈ Text.splitOn name '/', Path.IsName piece))

theorem isName_file {piece : String} (h : '/' ∉ piece.toList) : Path.IsName (piece ++ ".class") := by
  have hlength : 6 ≤ (piece ++ ".class").length := by
    rw [String.length_append]
    exact Nat.le_add_left 6 _
  have hother : ∀ s : String, s.length < 6 → piece ++ ".class" ≠ s := by
    intro s hs heq
    rw [heq] at hlength
    omega
  exact ⟨hother "" (by decide), hother "." (by decide), hother ".." (by decide), by simp [h]⟩

theorem IsInternal.pieces_file {name : String} (h : IsInternal name) :
    ∀ piece ∈ Text.splitOn (name ++ ".class") '/', Path.IsName piece := by
  have hfile := isName_file (Path.noSlash_last name)
  rcases Path.eq_last_or name with ⟨hname, -⟩ | ⟨before, hname, -⟩
  · rw [hname, Text.splitOn_eq_singleton hfile.noSlash]
    simpa using hfile
  · have hfront : name = String.ofList before ++ "/" ++ Path.last name := by
      rw [← String.toList_inj, hname]
      simp
    have hpieces : ∀ piece ∈ Text.splitOn (String.ofList before) '/', Path.IsName piece := by
      intro piece hpiece
      apply h
      rw [hfront, Text.splitOn_append_slash]
      exact List.mem_append_left _ hpiece
    have hsplit : Text.splitOn (name ++ ".class") '/' =
        Text.splitOn (String.ofList before) '/' ++ [Path.last name ++ ".class"] := by
      rw [← Text.splitOn_eq_singleton hfile.noSlash, ← Text.splitOn_append_slash, ← String.append_assoc, ← hfront]
    intro piece hpiece
    rw [hsplit, List.mem_append, List.mem_singleton] at hpiece
    rcases hpiece with hpiece | rfl
    · exact hpieces piece hpiece
    · exact hfile

structure Class.Spelled (c : Class) : Prop where
  name : IsInternal c.name
  super : c.super = "" ∨ IsInternal c.super
  interfaces : ∀ i ∈ c.interfaces, IsInternal i

theorem Jar.opened {f : Files} {path : String} {j : Jar} (h : open_ f path = .ok j) :
    j.closed = false ∧ ∃ es, j.classes = classesOf es := by
  unfold open_ at h
  cases hread : f.read path with
  | error o =>
    simp only [hread] at h
    cases h
  | ok bytes =>
    simp only [hread] at h
    cases hdecode : Archive.decode path bytes with
    | error d =>
      simp only [hdecode] at h
      cases h
    | ok es =>
      simp only [hdecode] at h
      cases h
      exact ⟨rfl, es, rfl⟩

namespace ClasspathEntry
variable {f : Files} {name : String} {c : Class} {e : ClasspathEntry}

def place (name : String) : ClasspathEntry → String
  | dir d => Path.join d (name ++ ".class")
  | jar j => j.path ++ "!" ++ (name ++ ".class")

def Has (f : Files) (name : String) : ClasspathEntry → Prop
  | dir d => f.exists_ (Path.join d (name ++ ".class")) = true
  | jar j => name ∈ j.names

def Reads (f : Files) (name : String) (bytes : List UInt8) : ClasspathEntry → Prop
  | dir d => f.read (Path.join d (name ++ ".class")) = .ok bytes
  | jar j => ∃ e, (name, e) ∈ j.classes ∧ e.unpack = .ok bytes

/-- The class at the place of a name. What it is called is up to the bytes there. -/
def Holds (f : Files) (name : String) (c : Class) (e : ClasspathEntry) : Prop :=
  ∃ bytes parsed, e.Reads f name bytes ∧ ClassFile.parse bytes = .ok parsed ∧ c = { parsed with origin := e.place name }

def LaidOut (f : Files) (e : ClasspathEntry) : Prop :=
  ∀ name c, IsInternal name → e.Holds f name c → c.Spelled ∧ c.origin = e.place c.name

def Sound : ClasspathEntry → Prop
  | dir d => d ≠ ""
  | jar j => j.closed = false ∧ ∃ es, j.classes = Jar.classesOf es

theorem sound_of_openEntry {path : String} (h : Classpath.openEntry f path = .ok e) : e.Sound := by
  unfold Classpath.openEntry at h
  cases hstat : f.stat path with
  | error o =>
    rw [hstat] at h
    cases h
  | ok node =>
    simp only [hstat] at h
    cases node with
    | dir =>
      cases h
      rintro rfl
      cases hstat
    | file _ | link _ =>
      simp only at h
      split at h
      · cases hjar : Jar.open_ f path with
        | error d =>
          rw [hjar] at h
          cases h
        | ok j =>
          rw [hjar] at h
          cases h
          exact Jar.opened hjar
      · cases h

theorem place_injective (he : e.Sound) {a b : String} (ha : IsInternal a) (hb : IsInternal b)
    (h : e.place a = e.place b) : a = b := by
  cases e with
  | dir d => exact (String.append_left_inj _).1 (Path.join_injective he ha.pieces_file hb.pieces_file h)
  | jar j => exact (String.append_left_inj _).1 ((String.append_right_inj _).1 h)

theorem name_of_laidOut (he : e.Sound) (hlaid : e.LaidOut f) (hname : IsInternal name) (hc : e.Holds f name c) :
    c.name = name := by
  obtain ⟨hspelled, hplace⟩ := hlaid name c hname hc
  obtain ⟨bytes, parsed, -, -, rfl⟩ := hc
  exact (place_injective he hname hspelled.name hplace).symm

end ClasspathEntry

/-! ## What a classpath hands out -/

theorem Files.parseClass_eq_ok {f : Files} {path : String} {c : Class} :
    f.parseClass path = .ok c ↔
      ∃ bytes parsed, f.read path = .ok bytes ∧ ClassFile.parse bytes = .ok parsed ∧
        c = { parsed with origin := path } := by
  unfold parseClass
  cases hread : f.read path with
  | error o => simp
  | ok bytes =>
    cases hparse : ClassFile.parse bytes with
    | error d => simp [hparse]
    | ok parsed => simp [hparse, eq_comm]

theorem Files.exists_of_read {f : Files} {path : String} {bytes : List UInt8} (h : f.read path = .ok bytes) :
    f.exists_ path = true := by
  unfold read content at h
  unfold exists_ stat
  cases hfind : f.find true path with
  | error o =>
    rw [hfind] at h
    cases h
  | ok found => rfl

theorem Jar.load_eq_ok {j : Jar} (hopen : j.closed = false) {es : List ArchiveEntry} (hes : j.classes = classesOf es)
    {name : String} {c : Class} :
    j.load name = .ok c ↔ ∃ e bytes parsed, (name, e) ∈ j.classes ∧ e.unpack = .ok bytes ∧
      ClassFile.parse bytes = .ok parsed ∧ c = { parsed with origin := j.path ++ "!" ++ (name ++ ".class") } := by
  have hlookup : ∀ e, (name, e) ∈ j.classes ↔ j.classes.lookup name = some e := by
    intro e
    constructor
    · intro h
      rw [hes] at h ⊢
      exact lookup_classesOf h
    · intro h
      obtain ⟨front, back, hsplit, -⟩ := List.lookup_eq_some_iff.1 h
      simp [hsplit]
  have hentry : ∀ e, (name, e) ∈ j.classes → e.name = name ++ ".class" := by
    intro e h
    rw [hes] at h
    have hlast := List.mem_of_getLast? (mem_classesOf.1 h)
    exact name_of_className? (mem_named.1 (List.mem_filter.1 hlast).1).2
  unfold load
  cases hl : j.classes.lookup name with
  | none => simp [hlookup, hl]
  | some e =>
    have he := hentry e ((hlookup e).2 hl)
    cases hunpack : e.unpack with
    | error d => simp [hlookup, hl, unpack, hopen, hunpack]
    | ok bytes =>
      cases hparse : ClassFile.parse bytes with
      | error d => simp [hlookup, hl, unpack, hopen, hunpack, hparse]
      | ok parsed => simp [hlookup, hl, unpack, hopen, hunpack, hparse, he, eq_comm]

namespace Classpath
variable {f : Files} {name : String} {c : Class} {e : ClasspathEntry} {entries : List ClasspathEntry}

theorem find?_eq_none : find? f name e = none ↔ ¬ e.Has f name := by
  cases e with
  | dir d => simp [find?, ClasspathEntry.Has]
  | jar j =>
    have hhas : j.has name = true ↔ name ∈ j.names := by simp [Jar.has, Jar.names]
    simp [find?, ClasspathEntry.Has, hhas]

theorem find?_eq_ok (he : e.Sound) : find? f name e = some (.ok c) ↔ e.Holds f name c := by
  cases e with
  | dir d =>
    simp only [find?, Option.ite_none_right_eq_some, Option.some.injEq, Files.parseClass_eq_ok]
    constructor
    · exact fun h => h.2
    · intro h
      obtain ⟨bytes, parsed, hread, -⟩ := id h
      exact ⟨Files.exists_of_read hread, h⟩
  | jar j =>
    obtain ⟨hopen, es, hes⟩ := he
    simp only [find?, Option.ite_none_right_eq_some, Option.some.injEq, Jar.load_eq_ok hopen hes]
    constructor
    · rintro ⟨-, entry, bytes, parsed, hmem, hunpack, hparse, hc⟩
      exact ⟨bytes, parsed, ⟨entry, hmem, hunpack⟩, hparse, hc⟩
    · rintro ⟨bytes, parsed, ⟨entry, hmem, hunpack⟩, hparse, hc⟩
      refine ⟨?_, entry, bytes, parsed, hmem, hunpack, hparse, hc⟩
      rw [Jar.has, List.any_eq_true]
      exact ⟨(name, entry), hmem, by simp⟩

/-- The first entry that has something at the place of the name holds the class. -/
def Decides (f : Files) (entries : List ClasspathEntry) (name : String) (c : Class) : Prop :=
  ∃ before e after, entries = before ++ e :: after ∧ (∀ b ∈ before, ¬ b.Has f name) ∧ e.Holds f name c

def Misplaced (f : Files) (entries : List ClasspathEntry) (name : String) : Prop :=
  ∃ c, Decides f entries name c ∧ c.name ≠ name

theorem sound_of_open {paths : List String} (h : open_ f paths = .ok entries) : ∀ e ∈ entries, e.Sound := by
  intro e he
  obtain ⟨path, -, hpath⟩ := (mem_of_mapM h e).1 he
  exact ClasspathEntry.sound_of_openEntry hpath

theorem source_eq_ok (hsound : ∀ e ∈ entries, e.Sound) :
    source f entries name = .ok (some c) ↔ Decides f entries name c := by
  have hfirst : source f entries name = .ok (some c) ↔ entries.findSome? (find? f name) = some (.ok c) := by
    unfold source
    cases entries.findSome? (find? f name) with
    | none => simp
    | some found =>
      cases found with
      | error e =>
        constructor
        · intro h
          cases h
        · intro h
          cases h
      | ok d =>
        constructor
        · intro h
          cases h
          rfl
        · intro h
          cases h
          rfl
  rw [hfirst, List.findSome?_eq_some_iff]
  constructor
  · rintro ⟨before, e, after, hsplit, hok, hbefore⟩
    have he : e.Sound := hsound e (by simp [hsplit])
    exact ⟨before, e, after, hsplit, fun b hb => find?_eq_none.1 (hbefore b hb), (find?_eq_ok he).1 hok⟩
  · rintro ⟨before, e, after, hsplit, hbefore, hholds⟩
    have he : e.Sound := hsound e (by simp [hsplit])
    exact ⟨before, e, after, hsplit, (find?_eq_ok he).2 hholds, fun b hb => find?_eq_none.2 (hbefore b hb)⟩

theorem not_misplaced (hsound : ∀ e ∈ entries, e.Sound) (hlaid : ∀ e ∈ entries, e.LaidOut f) (hname : IsInternal name) :
    ¬ Misplaced f entries name := by
  rintro ⟨c, ⟨before, e, after, hsplit, -, hholds⟩, hne⟩
  have he : e ∈ entries := by simp [hsplit]
  exact hne (ClasspathEntry.name_of_laidOut (hsound e he) (hlaid e he) hname hholds)

end Classpath

/-! ## What a resolver hands out -/

theorem Resolver.load?_eq_some {source : Source} {name : String} {c : Class} :
    load? source name = some c ↔ source name = .ok (some c) := by
  unfold load?
  cases source name with
  | error e =>
    constructor
    · intro h
      cases h
    · intro h
      cases h
  | ok found =>
    constructor
    · intro h
      cases found with
      | none => cases h
      | some d =>
        cases h
        rfl
    · intro h
      cases h
      rfl

namespace Settings
variable {f : Files} {paths : List String} {entries : List ClasspathEntry} {classes : List Class}
variable {name : String} {c : Class}

theorem load?_of_own (hopen : Classpath.open_ f (paths.filter f.exists_) = .ok entries)
    (h : (ClassSet.ofList classes).find? name = some c) : Resolver.load? (source f classes paths) name = some c := by
  unfold source Resolver.load?
  rw [hopen]
  simp only [Source.chain, ClassSet.source, h]
  rfl

theorem load?_of_other (hopen : Classpath.open_ f (paths.filter f.exists_) = .ok entries)
    (h : (ClassSet.ofList classes).find? name = none) :
    Resolver.load? (source f classes paths) name = Resolver.load? (Classpath.source f entries) name := by
  have hpass : (classNotFound name).hasCode .notFound = true := rfl
  unfold source Resolver.load?
  rw [hopen]
  simp only [Source.chain, ClassSet.source, h, hpass, if_true]
  cases Classpath.source f entries name with
  | ok found => rfl
  | error e =>
    by_cases hcode : e.hasCode .notFound = true
    · simp only [hcode, if_true]
      rfl
    · simp only [hcode]
      rfl

/-- The analyzed classes come first, and answer by their own names. -/
theorem load?_source (hopen : Classpath.open_ f (paths.filter f.exists_) = .ok entries) :
    Resolver.load? (source f classes paths) name = some c ↔
      (ClassSet.ofList classes).find? name = some c ∨
        name ∉ classes.map (·.name) ∧ Classpath.source f entries name = .ok (some c) := by
  have hknown := ClassSet.isSome_find?_ofList classes name
  cases hfind : (ClassSet.ofList classes).find? name with
  | some d =>
    rw [hfind] at hknown
    simp only [load?_of_own hopen hfind, hknown.1 rfl, not_true, false_and, or_false]
  | none =>
    have hother : name ∉ classes.map (·.name) := by simp [← hknown, hfind]
    rw [load?_of_other hopen hfind, Resolver.load?_eq_some]
    simp only [hother, not_false_iff, true_and, reduceCtorEq, false_or]

theorem named_of_load? (hopen : Classpath.open_ f (paths.filter f.exists_) = .ok entries) :
    (∃ c, Resolver.load? (source f classes paths) name = some c ∧ c.name ≠ name) ↔
      name ∉ classes.map (·.name) ∧ Classpath.Misplaced f entries name := by
  simp only [load?_source hopen, Classpath.source_eq_ok (Classpath.sound_of_open hopen)]
  constructor
  · rintro ⟨c, hown | ⟨hother, hdecides⟩, hne⟩
    · exact absurd (ClassSet.name_of_find? hown) hne
    · exact ⟨hother, c, hdecides, hne⟩
  · rintro ⟨hother, c, hdecides, hne⟩
    exact ⟨c, .inr ⟨hother, hdecides⟩, hne⟩

end Settings

/-! ## Walks -/

/-- Each class of a chain has the name that the one below it gives its superclass. -/
def Linked : String → List Class → Prop
  | _, [] => True
  | name, k :: chain => k.name = name ∧ Linked k.super chain

section
variable {answer : String → Option Class}

def Declares (answer : String → Option Class) (child parent : String) : Prop :=
  ∃ k, found answer child = some k ∧ k.name = child ∧ parent ∈ k.interfaces

/-- The answers for names as class files spell them are named so, and spell other names alike. -/
def Honest (answer : String → Option Class) : Prop :=
  ∀ name k, IsInternal name → found answer name = some k → k.name = name ∧ k.Spelled

theorem Honest.linked (h : Honest answer) {fuel : Nat} {seen : List String} {name : String}
    (hname : name = "" ∨ IsInternal name) : Linked name ((chainFrom fuel seen name).run answer) := by
  induction fuel generalizing seen name with
  | zero => trivial
  | succ fuel ih =>
    rw [run_chainFrom]
    by_cases hseen : name ∈ seen
    · rw [if_pos hseen]
      trivial
    · rw [if_neg hseen]
      cases hclimb : climb answer name with
      | none => trivial
      | some k =>
        have hfound : found answer name = some k := by
          unfold climb at hclimb
          split at hclimb
          · cases hclimb
          · exact hclimb
        have hinternal : IsInternal name := by
          rcases hname with rfl | hname
          · exact absurd rfl (found_eq answer hfound).1
          · exact hname
        obtain ⟨hk, hspelled⟩ := h name k hinternal hfound
        exact ⟨hk, ih hspelled.super⟩

theorem Honest.declares (h : Honest answer) {i a : String} (hi : IsInternal i) (ha : TransGen (Extends answer) i a) :
    TransGen (Declares answer) i a ∧ IsInternal a := by
  have hstep : ∀ {child parent}, IsInternal child → Extends answer child parent →
      Declares answer child parent ∧ IsInternal parent := by
    rintro child parent hchild ⟨k, hfound, hparent⟩
    obtain ⟨hk, hspelled⟩ := h child k hchild hfound
    exact ⟨⟨k, hfound, hk, hparent⟩, hspelled.interfaces parent hparent⟩
  induction ha with
  | single hp =>
    obtain ⟨hdeclares, hinternal⟩ := hstep hi hp
    exact ⟨.single hdeclares, hinternal⟩
  | tail _ hp ih =>
    obtain ⟨hdeclares, hinternal⟩ := hstep ih.2 hp
    exact ⟨.tail ih.1 hdeclares, hinternal⟩

theorem Extended.Sound.considered {fuel : Nat} {name parent : String} {known : Extended} (h : known.Sound answer)
    (hparent : Extends answer name parent)
    (ih : ∀ {known : Extended} (name : String), known.Sound answer →
      ((JvmLint.expand fuel known name).run answer).Sound answer) :
    (JvmLint.considered answer fuel name known parent).Sound answer := by
  unfold JvmLint.considered
  split
  · exact h
  · have hmid := ih parent (h.add_parent hparent)
    exact hmid.add fun a ha => .head hparent (hmid parent a ha)

/-- However deep a search may go, what it enters can be reached. -/
theorem Extended.Sound.expand {fuel : Nat} {known : Extended} {name : String} (h : known.Sound answer) :
    ((JvmLint.expand fuel known name).run answer).Sound answer := by
  induction fuel generalizing known name with
  | zero => exact h
  | succ fuel ih =>
    by_cases hknown : known.has name = true
    · rw [run_expand_known answer hknown]
      exact h
    · rw [run_expand_new answer hknown]
      have hparents : ∀ p ∈ parents answer name, Extends answer name p := fun p hp => (mem_parents answer).1 hp
      refine List.foldlRecOn (motive := fun known : Extended => known.Sound answer) _ _ (h.add (by simp)) ?_
      exact fun known hsound parent hparent => hsound.considered (hparents parent hparent) fun _ => ih

end

namespace Settings
variable {f : Files} {paths : List String} {entries : List ClasspathEntry} {classes : List Class}

theorem honest_direct (hopen : Classpath.open_ f (paths.filter f.exists_) = .ok entries)
    (hlaid : ∀ e ∈ entries, e.LaidOut f) (hspelled : ∀ c ∈ classes, c.Spelled) :
    Honest (Resolver.direct (source f classes paths)) := by
  intro name k hname hfound
  have hsound := Classpath.sound_of_open hopen
  obtain ⟨hne, hdirect⟩ := found_eq _ hfound
  rw [Resolver.direct, if_neg hne, load?_source hopen] at hdirect
  rcases hdirect with hown | ⟨-, hother⟩
  · have hmem : k ∈ classes := ClassSet.mem_ofList (List.mem_of_find?_eq_some hown)
    exact ⟨ClassSet.name_of_find? hown, hspelled k hmem⟩
  · obtain ⟨before, e, after, rfl, -, hholds⟩ := (Classpath.source_eq_ok hsound).1 hother
    have he : e ∈ before ++ e :: after := by simp
    exact ⟨ClasspathEntry.name_of_laidOut (hsound e he) (hlaid e he) hname hholds, (hlaid e he name k hname hholds).1⟩

/-- A classpath answers a name with a class of another name exactly if the class at the place of the name is out of
place, and a resolver does, whatever it was asked before, unless an analyzed class has the name. Where all classes are
in place, none is found out of place by a name that class files can spell; each superclass that a walk comes to has
the name that the class below it gives, and each interface that it enters is declared, step by step, by classes of the
names on the way. -/
theorem named_unless_misplaced (hopen : Classpath.open_ f (paths.filter f.exists_) = .ok entries) (classes : List Class)
    {α : Type} (before : Lookup α) {r : Resolver} (hr : r = (Resolver.answer {} (source f classes paths) before).2) :
    (∀ name, (∃ c, Classpath.source f entries name = .ok (some c) ∧ c.name ≠ name) ↔
      Classpath.Misplaced f entries name) ∧
    (∀ name, (∃ c, (Resolver.resolve (source f classes paths) name r).1 = some c ∧ c.name ≠ name) ↔
      name ≠ "" ∧ name ∉ classes.map (·.name) ∧ Classpath.Misplaced f entries name) ∧
    ((∀ e ∈ entries, e.LaidOut f) → (∀ c ∈ classes, c.Spelled) →
      (∀ name, IsInternal name → ¬ Classpath.Misplaced f entries name) ∧
      (∀ (c : Class) around, c.super = "" ∨ IsInternal c.super →
        Linked c.super (r.answer (source f classes paths) (c.ancestors around)).1) ∧
      ∀ fuel (names : List String) i a, IsInternal i →
        a ∈ (r.answer (source f classes paths) (names.foldlM (expand fuel) [])).1.get i →
        TransGen (Declares (Resolver.direct (source f classes paths))) i a) := by
  have hsound := Classpath.sound_of_open hopen
  obtain ⟨r', hanswer, hfaithful⟩ := Resolver.answer_faithful (Resolver.faithful_new (source f classes paths)) before
  have hr' : r.Faithful (source f classes paths) := by
    rw [hr, hanswer]
    exact hfaithful
  have hrun : ∀ {β : Type} (l : Lookup β), (r.answer (source f classes paths) l).1 =
      l.run (Resolver.direct (source f classes paths)) := by
    intro β l
    obtain ⟨_, h, -⟩ := Resolver.answer_faithful hr' l
    rw [h]
  refine ⟨?_, ?_, ?_⟩
  · intro name
    simp only [Classpath.source_eq_ok hsound, Classpath.Misplaced]
  · intro name
    rw [(Resolver.resolve_faithful hr' name).1, Resolver.direct]
    by_cases hname : name = ""
    · simp [hname]
    · simp only [hname, if_false, named_of_load? hopen, ne_eq, not_false_iff, true_and]
  · intro hlaid hspelled
    have hhonest := honest_direct hopen hlaid hspelled
    refine ⟨fun name hname => Classpath.not_misplaced hsound hlaid hname, ?_, ?_⟩
    · intro c around hsuper
      rw [hrun]
      exact hhonest.linked hsuper
    · intro fuel names i a hi ha
      rw [hrun, Lookup.run_foldlM] at ha
      have hentries : (names.foldl (fun known name => (expand fuel known name).run
          (Resolver.direct (source f classes paths))) []).Sound (Resolver.direct (source f classes paths)) :=
        List.foldlRecOn (motive := fun known : Extended => known.Sound _) _ _ (Extended.valid_nil False).sound
          fun known hknown name _ => hknown.expand
      exact (hhonest.declares hi (hentries i a ha)).1

end Settings

/-! ## A class in place and two out of place -/

theorem Files.stat_of_read {f : Files} {path : String} {bytes : List UInt8} (h : f.read path = .ok bytes) :
    ∃ c, f.stat path = .ok (.file c) := by
  unfold read content at h
  unfold stat
  cases hfind : f.find true path with
  | error o =>
    rw [hfind] at h
    cases h
  | ok found =>
    obtain ⟨p, node⟩ := found
    rw [hfind] at h
    cases node with
    | file c => exact ⟨c, rfl⟩
    | dir => cases h
    | link _ => cases h

theorem Classpath.openEntry_jar {f : Files} {path : String} {j : Jar}
    (hpath : Text.endsWith (Text.lower path) ".jar" = true)
    (h : Jar.open_ f path = .ok j) : openEntry f path = .ok (.jar j) ∧ f.exists_ path = true := by
  obtain ⟨bytes, hread⟩ : ∃ bytes, f.read path = .ok bytes := by
    rcases outcome (f.read path) with ⟨o, ho⟩ | hok
    · rw [Jar.open_, ho] at h
      cases h
    · exact hok
  obtain ⟨c, hstat⟩ := Files.stat_of_read hread
  unfold openEntry
  rw [hstat]
  simp only [hpath, if_true, h]
  exact ⟨rfl, Files.exists_of_read hread⟩

theorem find_here : boxedTree.find true "." = .ok (["work"], .dir) := by
  have hfollow : boxedTree.follow true 40 ["work"] ["."] = .ok ["work"] := by
    rw [Files.follow, if_pos rfl, Files.follow]
  have hlocate : boxedTree.locate true "." = .ok ["work"] := hfollow
  rw [Files.find, hlocate]
  rfl

theorem open_boxedPath :
    Classpath.open_ boxedTree (["app.jar", "."].filter boxedTree.exists_) = .ok [.jar boxedJar, .dir "."] := by
  have hstat : boxedTree.stat "." = .ok .dir := by rw [Files.stat, find_here]
  have hhere : boxedTree.exists_ "." = true := by
    rw [Files.exists_, hstat]
    rfl
  have hdir : Classpath.openEntry boxedTree "." = .ok (.dir ".") := by rw [Classpath.openEntry, hstat]
  obtain ⟨hjar, hthere⟩ := Classpath.openEntry_jar (by decide) open_boxedTree
  simp only [List.filter_cons, List.filter_nil, hhere, hthere, if_true, Classpath.open_, List.mapM_cons, List.mapM_nil,
    hdir, hjar]
  rfl

theorem decides_boxed :
    Classpath.Decides boxedTree [.jar boxedJar, .dir "."] "BOOT-INF/classes/gen/Stub" boxedClass := by
  have hunpack : boxedStub.unpack = .ok stubBytes := by decide +kernel
  refine ⟨[], .jar boxedJar, [.dir "."], rfl, by simp, stubBytes, stubClass, ?_, parse_stubBytes, rfl⟩
  exact ⟨boxedStub, by simp [boxedJar], hunpack⟩

def looseStub : Class := { stubClass with origin := "Stub.class" }

theorem decides_loose : Classpath.Decides boxedTree [.jar boxedJar, .dir "."] "Stub" looseStub := by
  have hplace : (ClasspathEntry.dir ".").place "Stub" = "Stub.class" := by decide
  have hread : (ClasspathEntry.dir ".").Reads boxedTree "Stub" stubBytes := by
    show boxedTree.read ((ClasspathEntry.dir ".").place "Stub") = .ok stubBytes
    rw [hplace]
    exact Files.read_plain (c := .bytes stubBytes) (by decide) (by decide) rfl
  refine ⟨[.jar boxedJar], .dir ".", [], rfl, ?_, stubBytes, stubClass, hread, parse_stubBytes, ?_⟩
  · intro b hb
    rw [List.mem_singleton.1 hb]
    exact (by decide : "Stub" ∉ boxedJar.names)
  · rw [hplace]
    rfl

def looseClass : Class := { name := "app/Loose", access := ⟨0x21⟩, super := "Stub", major := 61 }

def tidyClass : Class := { name := "app/Tidy", access := ⟨0x21⟩, super := "gen/Stub", major := 61 }

def tidyStub : ArchiveEntry := .stored "gen/Stub.class" stubBytes

def tidyTree : Files := {
  cwd := ["work"]
  nodes := [(["work"], .dir), (["work", "lib.jar"], .file (.bytes (Archive.encode [tidyStub])))] }

def placedStub : Class := { stubClass with origin := "lib.jar!gen/Stub.class" }

def tidyJar : Jar := { path := "lib.jar", classes := [("gen/Stub", tidyStub)] }

theorem open_tidyTree : Jar.open_ tidyTree "lib.jar" = .ok tidyJar := by
  have hread : tidyTree.read "lib.jar" = .ok (Archive.encode [tidyStub]) :=
    Files.read_plain (c := .bytes (Archive.encode [tidyStub])) (by decide) (by decide) rfl
  have hdecode : Archive.decode "lib.jar" (Archive.encode [tidyStub]) = .ok [tidyStub] := by decide +kernel
  have hclasses : Jar.classesOf [tidyStub] = [("gen/Stub", tidyStub)] := by
    have hname : Jar.className? tidyStub = some "gen/Stub" := by decide
    simp [Jar.classesOf, hname]
  rw [Jar.open_, hread]
  simp only [hdecode, hclasses, tidyJar]

theorem open_tidyPath : Classpath.open_ tidyTree (["lib.jar"].filter tidyTree.exists_) = .ok [.jar tidyJar] := by
  obtain ⟨hjar, hthere⟩ := Classpath.openEntry_jar (by decide) open_tidyTree
  simp only [List.filter_cons, List.filter_nil, hthere, if_true, Classpath.open_, List.mapM_cons, List.mapM_nil, hjar]
  rfl

theorem holds_tidy : ∀ name c, (ClasspathEntry.jar tidyJar).Holds tidyTree name c →
    name = "gen/Stub" ∧ c = placedStub := by
  rintro name c ⟨bytes, parsed, ⟨entry, hmem, hunpack⟩, hparse, rfl⟩
  have hstub : tidyStub.unpack = .ok stubBytes := by decide +kernel
  have hentry : name = "gen/Stub" ∧ entry = tidyStub := by simpa [tidyJar] using hmem
  obtain ⟨rfl, rfl⟩ := hentry
  rw [hstub] at hunpack
  cases hunpack
  rw [parse_stubBytes] at hparse
  cases hparse
  exact ⟨rfl, rfl⟩

theorem laidOut_tidy : ∀ e ∈ [ClasspathEntry.jar tidyJar], e.LaidOut tidyTree := by
  intro e he name c _ hholds
  rw [List.mem_singleton.1 he] at hholds ⊢
  obtain ⟨-, rfl⟩ := holds_tidy name c hholds
  exact ⟨⟨by decide, .inr (by decide), by simp [placedStub, stubClass]⟩, rfl⟩

namespace Settings

/-- The jar has one class, in place, and the analyzed class extends it. -/
theorem named_unless_misplaced_tidy :
    Classpath.open_ tidyTree (["lib.jar"].filter tidyTree.exists_) = .ok [.jar tidyJar] ∧
    (∀ e ∈ [ClasspathEntry.jar tidyJar], e.LaidOut tidyTree) ∧ (∀ c ∈ [tidyClass], c.Spelled) ∧
    (∃ c, Classpath.source tidyTree [.jar tidyJar] "gen/Stub" = .ok (some c)) ∧
    ¬ Classpath.Misplaced tidyTree [.jar tidyJar] "gen/Stub" ∧
    Linked "gen/Stub"
      (Resolver.answer {} (source tidyTree [tidyClass] ["lib.jar"]) (tidyClass.ancestors {})).1 := by
  have hspelled : ∀ c ∈ [tidyClass], c.Spelled := by
    intro c hc
    rw [List.mem_singleton.1 hc]
    exact ⟨by decide, .inr (by decide), by simp [tidyClass]⟩
  have hdecides : Classpath.Decides tidyTree [.jar tidyJar] "gen/Stub" placedStub := by
    have hunpack : tidyStub.unpack = .ok stubBytes := by decide +kernel
    refine ⟨[], .jar tidyJar, [], rfl, by simp, stubBytes, stubClass, ?_, parse_stubBytes, rfl⟩
    exact ⟨tidyStub, by simp [tidyJar], hunpack⟩
  obtain ⟨-, -, hplaced⟩ := named_unless_misplaced open_tidyPath [tidyClass] (pure () : Lookup Unit) rfl
  obtain ⟨hnone, hlinked, -⟩ := hplaced laidOut_tidy hspelled
  refine ⟨open_tidyPath, laidOut_tidy, hspelled, ⟨placedStub, ?_⟩, hnone _ (by decide),
    hlinked tidyClass {} (.inr (by decide))⟩
  exact (Classpath.source_eq_ok (Classpath.sound_of_open open_tidyPath)).2 hdecides

/-- A file in the wrong directory and an entry of a jar that keeps its classes in a directory are handed out by the
names of their places, and the walk up from a class that extends the file comes to a class of another name. -/
theorem boxedTree_answers_by_place :
    ∃ entries, Classpath.open_ boxedTree (["app.jar", "."].filter boxedTree.exists_) = .ok entries ∧
      (∃ c, Classpath.source boxedTree entries "Stub" = .ok (some c) ∧ c.name = "gen/Stub") ∧
      (∃ c, Classpath.source boxedTree entries "BOOT-INF/classes/gen/Stub" = .ok (some c) ∧ c.name = "gen/Stub") ∧
      (∃ c, (Resolver.resolve (source boxedTree [looseClass] ["app.jar", "."]) "Stub" {}).1 = some c ∧
        c.name = "gen/Stub") ∧
      ¬ Linked looseClass.super
        (Resolver.answer {} (source boxedTree [looseClass] ["app.jar", "."]) (looseClass.ancestors {})).1 := by
  have hsound := Classpath.sound_of_open open_boxedPath
  have hloose := (Classpath.source_eq_ok hsound).2 decides_loose
  have hdirect : Resolver.direct (source boxedTree [looseClass] ["app.jar", "."]) "Stub" = some looseStub := by
    rw [Resolver.direct, if_neg (by decide), load?_source open_boxedPath]
    exact .inr ⟨by decide, hloose⟩
  have hnew := Resolver.faithful_new (source boxedTree [looseClass] ["app.jar", "."])
  refine ⟨_, open_boxedPath, ⟨_, hloose, rfl⟩, ⟨_, (Classpath.source_eq_ok hsound).2 decides_boxed, rfl⟩, ?_, ?_⟩
  · rw [(Resolver.resolve_faithful hnew "Stub").1, hdirect]
    exact ⟨_, rfl, rfl⟩
  · obtain ⟨_, hanswer, -⟩ := Resolver.answer_faithful hnew (looseClass.ancestors {})
    have hclimb : climb (Resolver.direct (source boxedTree [looseClass] ["app.jar", "."])) looseClass.super =
        some looseStub := hdirect
    rw [hanswer, Class.ancestors, run_chainFrom, if_neg (by decide), hclimb]
    exact fun hlinked => absurd hlinked.1 (by decide)

end Settings

end JvmLint
