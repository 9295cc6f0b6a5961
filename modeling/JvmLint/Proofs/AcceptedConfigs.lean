import JvmLint.App.Basic
import JvmLint.Pattern.GlobTree
import JvmLint.Proofs.BuiltInChecks
import JvmLint.Proofs.Outcomes

/-!
# Accepted configurations

Validation and construction read layers, rules and patterns each in their own way. What validation
accepts, construction can use, so an accepted configuration is refused for its paths alone; and whatever
is refused leaves the application as it was.
-/

namespace JvmLint

theorem Layer.parse_of_mem {l : Layer} (h : l ∈ all) : ∃ k, parse l.name = .ok k := by
  -- the names are in the spelling that is compared
  have hspelling : ∀ l ∈ all, Text.lower (Text.trim l.name) = l.name := by decide +kernel
  have hsome : (all.find? (·.name == Text.lower (Text.trim l.name))).isSome := by
    rw [List.find?_isSome]
    exact ⟨l, h, by simp [hspelling l h]⟩
  obtain ⟨k, hk⟩ := Option.isSome_iff_exists.1 hsome
  exact ⟨k, by rw [parse, hk]⟩

theorem Pattern.compileAll_ok [GlobLibrary] {raws : List String} (h : ∀ raw ∈ raws, ∃ p, compile raw = .ok p) :
    ∃ ps, compileAll raws = .ok ps := by
  obtain ⟨ps, hps, -⟩ := mapM_ok h
  exact ⟨ps, hps⟩

namespace Config

/-! ## What validation establishes -/

theorem refuseIf_eq_ok {bad : Bool} {d : ConfigDefect} : refuseIf bad d = .ok () ↔ bad = false := by
  cases bad with
  | true => simp [refuseIf]
  | false => simp [refuseIf]

theorem checkPatterns_eq_ok [GlobLibrary] {field : String} {raws : List String} :
    checkPatterns field raws = .ok () ↔ ∃ ps, Pattern.compileAll raws = .ok ps := by
  unfold checkPatterns
  cases Pattern.compileAll raws with
  | error d => simp
  | ok ps => simp

theorem parse_of_isLayerName {s : String} (h : isLayerName s = true) : ∃ l, Layer.parse s = .ok l := by
  simp only [isLayerName, List.any_eq_true, beq_iff_eq] at h
  obtain ⟨l, hl, rfl⟩ := h
  exact Layer.parse_of_mem hl

theorem validateKeywords_ok {keywords : List (String × Keywords)} (h : validateKeywords keywords = .ok ()) :
    ∀ k ∈ keywords, isLayerName k.1 = true := by
  unfold validateKeywords at h
  split at h
  · cases h
  · rename_i hnone
    intro k hk
    have hgood := List.find?_eq_none.1 hnone k hk
    simp only [Bool.or_eq_true, not_or] at hgood
    simpa using hgood.1

def Compiles [GlobLibrary] (raws : List String) : Prop :=
  ∀ raw ∈ raws, ∃ p, Pattern.compile (classPattern raw) = .ok p

theorem claimPattern_ok [GlobLibrary] {layer raw : String} {claimed claimed' : Claimed}
    (h : claimPattern layer claimed raw = .ok claimed') : ∃ p, Pattern.compile (classPattern raw) = .ok p := by
  unfold claimPattern at h
  cases hp : Pattern.compile (classPattern raw) with
  | error d => simp [hp] at h
  | ok p => exact ⟨p, rfl⟩

theorem validateLayers_ok [GlobLibrary] {i : Nat} {names : List String} {claimed : Claimed} {ls : List LayerPaths}
    (h : validateLayers i names claimed ls = .ok ()) : ∀ l ∈ ls, isLayerName l.name = true ∧ Compiles l.paths := by
  induction ls generalizing i names claimed with
  | nil => simp
  | cons l ls ih =>
    unfold validateLayers at h
    obtain ⟨-, -, h⟩ := except_bind_eq_ok.1 h
    obtain ⟨⟨⟩, hname, h⟩ := except_bind_eq_ok.1 h
    obtain ⟨-, -, h⟩ := except_bind_eq_ok.1 h
    obtain ⟨-, -, h⟩ := except_bind_eq_ok.1 h
    obtain ⟨claimed', hclaimed, h⟩ := except_bind_eq_ok.1 h
    intro k hk
    rcases List.mem_cons.1 hk with rfl | hk
    · refine ⟨by simpa using refuseIf_eq_ok.1 hname, fun raw hraw => ?_⟩
      obtain ⟨_, _, hstep⟩ := step_of_foldlM hclaimed raw hraw
      exact claimPattern_ok hstep
    · exact ih h k hk

theorem validateAllowed_ok {rule : String} {seen targets : List String}
    (h : validateAllowed rule seen targets = .ok ()) : ∀ t ∈ targets, isLayerName t = true := by
  induction targets generalizing seen with
  | nil => simp
  | cons target rest ih =>
    unfold validateAllowed at h
    obtain ⟨⟨⟩, hname, h⟩ := except_bind_eq_ok.1 h
    obtain ⟨-, -, h⟩ := except_bind_eq_ok.1 h
    intro t ht
    rcases List.mem_cons.1 ht with rfl | ht
    · simpa using refuseIf_eq_ok.1 hname
    · exact ih h t ht

theorem validateRules_ok {i : Nat} {seen rs : List Rule} (h : validateRules i seen rs = .ok ()) :
    ∀ r ∈ rs, isLayerName r.source = true ∧ ∀ t ∈ r.allow, isLayerName t = true := by
  induction rs generalizing i seen with
  | nil => simp
  | cons rule rs ih =>
    unfold validateRules at h
    obtain ⟨-, -, h⟩ := except_bind_eq_ok.1 h
    obtain ⟨-, -, h⟩ := except_bind_eq_ok.1 h
    obtain ⟨⟨⟩, hsource, h⟩ := except_bind_eq_ok.1 h
    split at h
    · cases h
    obtain ⟨⟨⟩, hallow, h⟩ := except_bind_eq_ok.1 h
    intro r hr
    rcases List.mem_cons.1 hr with rfl | hr
    · exact ⟨by simpa using refuseIf_eq_ok.1 hsource, validateAllowed_ok hallow⟩
    · exact ih h r hr

structure Sound [GlobLibrary] (c : Config) : Prop where
  keywords : ∀ k ∈ c.architecture.keywords, isLayerName k.1 = true
  layers : ∀ l ∈ c.architecture.layers, isLayerName l.name = true ∧ Compiles l.paths
  rules : ∀ r ∈ c.architecture.rules, isLayerName r.source = true ∧ ∀ t ∈ r.allow, isLayerName t = true
  files : ∃ ps, Pattern.compileAll c.exclude.files = .ok ps
  classes : ∃ ps, Pattern.compileAll (c.exclude.classes.map classPattern) = .ok ps

theorem sound_of_validate [GlobLibrary] {c : Config} (h : validate c = .ok ()) : c.Sound := by
  unfold validate at h
  obtain ⟨-, -, h⟩ := except_bind_eq_ok.1 h
  obtain ⟨-, -, h⟩ := except_bind_eq_ok.1 h
  obtain ⟨⟨⟩, hexclude, h⟩ := except_bind_eq_ok.1 h
  obtain ⟨-, -, h⟩ := except_bind_eq_ok.1 h
  obtain ⟨⟨⟩, harchitecture, -⟩ := except_bind_eq_ok.1 h
  unfold validateExclude at hexclude
  obtain ⟨⟨⟩, hclasses, hfiles⟩ := except_bind_eq_ok.1 hexclude
  unfold validateArchitecture at harchitecture
  obtain ⟨⟨⟩, hkeywords, harchitecture⟩ := except_bind_eq_ok.1 harchitecture
  obtain ⟨⟨⟩, hlayers, hrules⟩ := except_bind_eq_ok.1 harchitecture
  exact {
    keywords := validateKeywords_ok hkeywords
    layers := validateLayers_ok hlayers
    rules := validateRules_ok hrules
    files := checkPatterns_eq_ok.1 hfiles
    classes := checkPatterns_eq_ok.1 hclasses }

inductive Accepted [GlobLibrary] (c : Config) : Prop where
  | prepared {env : Environment} {raw : Config} (h : prepare env raw = .ok c)
  | loaded {f : Files} {env : Environment} {path : String} (h : load f env path = .ok c)
  | found {f : Files} {env : Environment} {path : String} {explicit : Bool}
    (h : loadOrDefault f env path explicit = .ok c)

theorem sound_of_prepare [GlobLibrary] {env : Environment} {raw c : Config} (h : prepare env raw = .ok c) :
    c.Sound := by
  have hfinish : finish (applyEnvironment env raw) = .ok c := mapError_eq_ok.1 h
  unfold finish at hfinish
  obtain ⟨⟨⟩, hvalid, hc⟩ := except_bind_eq_ok.1 hfinish
  cases hc
  exact sound_of_validate hvalid

theorem sound_of_load [GlobLibrary] {f : Files} {env : Environment} {path : String} {c : Config}
    (h : load f env path = .ok c) :
    c.Sound := by
  unfold load at h
  split at h
  · cases h
  split at h
  · rename_i text _
    unfold ofText at h
    split at h
    · obtain ⟨raw, -, hprepare⟩ := except_bind_eq_ok.1 h
      exact sound_of_prepare hprepare
    · cases h
  · cases h

theorem Accepted.sound [GlobLibrary] {c : Config} (h : c.Accepted) : c.Sound := by
  cases h with
  | prepared h => exact sound_of_prepare h
  | loaded h => exact sound_of_load h
  | found h =>
    unfold loadOrDefault at h
    split at h
    · exact sound_of_load h
    split at h
    · cases h
    · exact sound_of_prepare h

/-! ## What construction makes of it -/

theorem classifier_of_compiles [GlobLibrary] {m : ArchitectureModel}
    (h : ∀ mapping ∈ m.mappings, Compiles mapping.2) :
    ∃ classifier, Classifier.ofModel m = .ok classifier := by
  have hmapping : ∀ mapping ∈ m.mappings, ∃ compiled, Classifier.compileMapping mapping = .ok compiled := by
    intro mapping hmem
    have hpaths : ∀ raw ∈ mapping.2.map classPattern, ∃ p, Pattern.compile raw = .ok p := by
      simpa [Compiles] using h mapping hmem
    obtain ⟨ps, hps⟩ := Pattern.compileAll_ok hpaths
    exact ⟨(mapping.1, ps), by rw [Classifier.compileMapping, hps]⟩
  obtain ⟨mappings, hmappings, -⟩ := mapM_ok hmapping
  exact ⟨_, except_bind_eq_ok.2 ⟨mappings, hmappings, rfl⟩⟩

section
variable [GlobLibrary] {c : Config} (h : c.Sound)
include h

theorem Sound.layerRule {r : Rule} (hr : r ∈ c.architecture.rules) : ∃ rule, layerRule r = .ok rule := by
  obtain ⟨hsource, hallow⟩ := h.rules r hr
  obtain ⟨layer, hlayer⟩ := parse_of_isLayerName hsource
  obtain ⟨allowed, hallowed, -⟩ := mapM_ok (l := r.allow)
    (f := fun s => (Layer.parse s).mapError fun e => e.label ("architecture rule " ++ Text.quote r.name)) fun t ht => by
      obtain ⟨l, hl⟩ := parse_of_isLayerName (hallow t ht)
      exact ⟨l, mapError_eq_ok.2 hl⟩
  exact ⟨_, except_bind_eq_ok.2 ⟨layer, mapError_eq_ok.2 hlayer, except_bind_eq_ok.2 ⟨allowed, hallowed, rfl⟩⟩⟩

theorem Sound.architectureModel :
    ∃ m, architectureModel c.architecture = .ok m ∧ ∀ mapping ∈ m.mappings, Compiles mapping.2 := by
  unfold Config.architectureModel
  obtain ⟨keywords, hkeywords⟩ := foldlM_ok (l := c.architecture.keywords) (g := fun out k => do
      let l ← (Layer.parse k.1).mapError fun e => e.label "architecture.keywords"
      return setKeywords out l (keywordsFor l k.2)) (fun out k hk => by
    obtain ⟨l, hl⟩ := parse_of_isLayerName (h.keywords k hk)
    exact ⟨_, except_bind_eq_ok.2 ⟨l, mapError_eq_ok.2 hl, rfl⟩⟩) []
  obtain ⟨mappings, hmappings, -, hmem⟩ := mapM_ok (l := c.architecture.layers) (f := fun l => do
      return (← (Layer.parse l.name).mapError fun e => e.label "architecture.layers", l.paths)) fun l hl => by
    obtain ⟨k, hk⟩ := parse_of_isLayerName (h.layers l hl).1
    exact ⟨_, except_bind_eq_ok.2 ⟨k, mapError_eq_ok.2 hk, rfl⟩⟩
  obtain ⟨rules, hrules, -⟩ := mapM_ok fun r hr => h.layerRule hr
  refine ⟨_, except_bind_eq_ok.2 ⟨keywords, hkeywords, except_bind_eq_ok.2 ⟨mappings, hmappings,
    except_bind_eq_ok.2 ⟨rules, hrules, rfl⟩⟩⟩, ?_⟩
  intro mapping hmapping
  obtain ⟨l, hl, hmade⟩ := (hmem mapping).1 hmapping
  obtain ⟨k, -, hpair⟩ := except_bind_eq_ok.1 hmade
  cases hpair
  exact (h.layers l hl).2

theorem Sound.registry :
    ∃ options registry, c.checkOptions = .ok options ∧ Registry.builtIn options = .ok registry := by
  obtain ⟨m, hm, hcompiles⟩ := h.architectureModel
  obtain ⟨classifier, hclassifier⟩ := classifier_of_compiles hcompiles
  exact ⟨_, _, except_bind_eq_ok.2 ⟨m, hm, rfl⟩, Registry.builtIn_of_model hclassifier⟩

theorem Sound.loader : ∃ loader, Loader.ofPatterns c.exclude.classes = .ok loader := by
  obtain ⟨ps, hps⟩ := h.classes
  exact ⟨{ exclude := ps }, by rw [Loader.ofPatterns, hps]⟩

end

end Config

/-! ## Taking a configuration over -/

namespace App

inductive Refusal [GlobLibrary] (f : Files) (workingDir : Except Fault String) (c : Config) : Fault → Prop where
  | workingDir {d : Fault} (h : workingDir = .error d) : Refusal f workingDir c (d.label "get working directory")
  | paths {dir : String} {e : Fault} (hdir : workingDir = .ok dir) (h : c.resolvePaths f dir = .error e) :
    Refusal f workingDir c e
  | options {d : Fault} (h : c.checkOptions = .error d) : Refusal f workingDir c (d.wrap .validation "check options")
  | registry {o : CheckOptions} {d : Fault} (ho : c.checkOptions = .ok o) (h : Registry.builtIn o = .error d) :
    Refusal f workingDir c (d.wrap .validation "check registry")
  | files {d : PatternDefect} (h : Pattern.compileAll c.exclude.files = .error d) :
    Refusal f workingDir c (d.fault.wrap .validation "exclude.files")
  | loader {e : Fault} (h : Settings.loaderOf c = .error e) : Refusal f workingDir c e

structure Settled [GlobLibrary] (f : Files) (workingDir : Except Fault String) (c : Config) (a : App)
    (s : Settings) : Prop where
  config : s.config = c
  paths : ∃ dir, workingDir = .ok dir ∧ c.resolvePaths f dir = .ok s.paths
  registry : ∃ o, c.checkOptions = .ok o ∧ Registry.builtIn o = .ok s.registry
  files : Pattern.compileAll c.exclude.files = .ok s.excludeFiles
  loader : if a.loader.isNone then Settings.loaderOf c = .ok s.loader else s.loader = a.settings.loader

section

variable {α β : Type} {x : Except Fault α} (k : α → Changing β) (a : App)

theorem run_make_ok {v : α} (h : x = .ok v) : (make x >>= k).run a = (k v).run a := by
  rw [h]
  rfl

theorem run_make_error {e : Fault} (h : x = .error e) : (make x >>= k).run a = (.error e, a) := by
  rw [h]
  rfl

theorem run_get (k : App → Changing β) : (get >>= k).run a = (k a).run a := rfl

end

/-- A configuration is taken over as a whole, or nothing changes. -/
theorem run_takeOver [GlobLibrary] (f : Files) (workingDir : Except Fault String) (c : Config) (a : App) :
    (∃ e, Refusal f workingDir c e ∧ (takeOver f workingDir c).run a = (.error e, a)) ∨
    ∃ s, Settled f workingDir c a s ∧ (takeOver f workingDir c).run a = (.ok (), { a with settings := s }) := by
  unfold takeOver
  rcases outcome workingDir with ⟨d, hdir⟩ | ⟨dir, hdir⟩
  · exact .inl ⟨_, .workingDir hdir, run_make_error _ a (mapError_of_error hdir)⟩
  rw [run_make_ok _ a (mapError_eq_ok.2 hdir)]
  rcases outcome (c.resolvePaths f dir) with ⟨e, hpaths⟩ | ⟨paths, hpaths⟩
  · exact .inl ⟨e, .paths hdir hpaths, run_make_error _ a hpaths⟩
  rw [run_make_ok _ a hpaths]
  rcases outcome c.checkOptions with ⟨d, hoptions⟩ | ⟨options, hoptions⟩
  · exact .inl ⟨_, .options hoptions, run_make_error _ a (mapError_of_error hoptions)⟩
  rw [run_make_ok _ a (mapError_eq_ok.2 hoptions)]
  rcases outcome (Registry.builtIn options) with ⟨d, hregistry⟩ | ⟨registry, hregistry⟩
  · exact .inl ⟨_, .registry hoptions hregistry, run_make_error _ a (mapError_of_error hregistry)⟩
  rw [run_make_ok _ a (mapError_eq_ok.2 hregistry)]
  rcases outcome (Pattern.compileAll c.exclude.files) with ⟨d, hfiles⟩ | ⟨excludeFiles, hfiles⟩
  · exact .inl ⟨_, .files hfiles, run_make_error _ a (mapError_of_error hfiles)⟩
  rw [run_make_ok _ a (mapError_eq_ok.2 hfiles), run_get]
  by_cases hown : a.loader.isNone = true
  · rw [if_pos hown]
    rcases outcome (Settings.loaderOf c) with ⟨e, hloader⟩ | ⟨loader, hloader⟩
    · exact .inl ⟨e, .loader hloader, run_make_error _ a hloader⟩
    rw [run_make_ok _ a hloader]
    refine .inr ⟨{ config := c, paths, registry, excludeFiles, loader }, ⟨rfl, ⟨dir, hdir, hpaths⟩,
      ⟨options, hoptions, hregistry⟩, hfiles, ?_⟩, rfl⟩
    simpa only [if_pos hown] using hloader
  · rw [if_neg hown]
    refine .inr ⟨{ config := c, paths, registry, excludeFiles, loader := a.settings.loader }, ⟨rfl, ⟨dir, hdir, hpaths⟩,
      ⟨options, hoptions, hregistry⟩, hfiles, ?_⟩, rfl⟩
    simp only [if_neg hown]

theorem loaderOf_of_sound [GlobLibrary] {c : Config} (h : c.Sound) : ∃ loader, Settings.loaderOf c = .ok loader := by
  obtain ⟨l, hl⟩ := h.loader
  exact ⟨_, except_bind_eq_ok.2 ⟨l, hl, rfl⟩⟩

/-- A sound configuration is refused for the working directory or for its paths. -/
theorem Refusal.place [GlobLibrary] {f : Files} {workingDir : Except Fault String} {c : Config} {e : Fault}
    (h : Refusal f workingDir c e) (hc : c.Sound) :
    (∃ d, workingDir = .error d ∧ e = d.label "get working directory") ∨
    ∃ dir, workingDir = .ok dir ∧ c.resolvePaths f dir = .error e := by
  obtain ⟨options, registry, hoptions, hregistry⟩ := hc.registry
  cases h with
  | workingDir h => exact .inl ⟨_, h, rfl⟩
  | paths hdir h => exact .inr ⟨_, hdir, h⟩
  | options h => simp [hoptions] at h
  | registry ho h =>
    obtain rfl : options = _ := by simpa [hoptions] using ho
    simp [hregistry] at h
  | files h =>
    obtain ⟨ps, hps⟩ := hc.files
    simp [hps] at h
  | loader h =>
    obtain ⟨loader, hloader⟩ := loaderOf_of_sound hc
    simp [hloader] at h

/-- An accepted configuration can be used as a whole: its options, registry, file patterns and loader are made,
so it is taken over unless the working directory is unknown or its paths cannot be resolved there. Whatever
configuration is refused, the application stays as it was. -/
theorem accepted_usable [GlobLibrary] :
    (∀ c : Config, c.Accepted →
      (∃ options registry, c.checkOptions = .ok options ∧ Registry.builtIn options = .ok registry) ∧
      (∃ ps, Pattern.compileAll c.exclude.files = .ok ps) ∧
      (∃ loader, Loader.ofPatterns c.exclude.classes = .ok loader) ∧
      ∀ f workingDir a,
        (∃ s, Settled f workingDir c a s ∧ (takeOver f workingDir c).run a = (.ok (), { a with settings := s })) ∨
        (∃ d, workingDir = .error d ∧
          (takeOver f workingDir c).run a = (.error (d.label "get working directory"), a)) ∨
        ∃ dir e, workingDir = .ok dir ∧ c.resolvePaths f dir = .error e ∧
          (takeOver f workingDir c).run a = (.error e, a)) ∧
    ∀ f workingDir c a e a', (takeOver f workingDir c).run a = (.error e, a') → a' = a := by
  constructor
  · intro c haccepted
    have hc := haccepted.sound
    refine ⟨hc.registry, hc.files, hc.loader, fun f workingDir a => ?_⟩
    rcases run_takeOver f workingDir c a with ⟨e, hrefusal, hrun⟩ | hsettled
    · rcases hrefusal.place hc with ⟨d, hdir, rfl⟩ | ⟨dir, hdir, hpaths⟩
      · exact .inr (.inl ⟨d, hdir, hrun⟩)
      · exact .inr (.inr ⟨dir, e, hdir, hpaths, hrun⟩)
    · exact .inl hsettled
  · intro f workingDir c a e a' herror
    rcases run_takeOver f workingDir c a with ⟨_, -, hrun⟩ | ⟨_, -, hrun⟩
    · rw [hrun] at herror
      cases herror
      rfl
    · rw [hrun] at herror
      cases herror

def layeredConfig : Config :=
  { exclude := { classes := ["com.app.gen.**"], files := ["**/test/*.class"] }
    checks := { duplication := { threshold := 0.75, minInstructions := 4 } }
    architecture :=
      { keywords := [(" Data", { packages := ["store"], classes := ["Repo"] })]
        layers := [{ name := "presentation", paths := ["com.app.ui"] }, { name := "domain", paths := ["com.app.core"] }]
        rules := [{ name := "ui", source := "presentation", allow := ["domain"] }] } }

theorem accepted_usable_layeredConfig :
    ∃ c, Config.prepare [("CLASSLINT_OUTPUT_FORMAT", "JSON")] layeredConfig = .ok c ∧
      (∃ options registry, c.checkOptions = .ok options ∧ Registry.builtIn options = .ok registry) ∧
      (∃ ps, Pattern.compileAll c.exclude.files = .ok ps) ∧
      (∃ loader, Loader.ofPatterns c.exclude.classes = .ok loader) ∧
      ∀ a, ∃ s, Settled {} (.ok "/work") c a s ∧ (takeOver {} (.ok "/work") c).run a = (.ok (), { a with settings := s }) := by
  have hplaced : (Config.prepare [("CLASSLINT_OUTPUT_FORMAT", "JSON")] layeredConfig).toOption.any
      (fun c => (c.resolvePaths {} "/work").isOk) = true := by decide +kernel
  rcases outcome (Config.prepare [("CLASSLINT_OUTPUT_FORMAT", "JSON")] layeredConfig) with ⟨e, herror⟩ | ⟨c, hprepared⟩
  · rw [herror] at hplaced
    cases hplaced
  rw [hprepared] at hplaced
  have hpaths : (c.resolvePaths {} "/work").isOk = true := hplaced
  obtain ⟨hregistry, hfiles, hloader, hrun⟩ := accepted_usable.1 c (.prepared hprepared)
  refine ⟨c, hprepared, hregistry, hfiles, hloader, fun a => ?_⟩
  rcases hrun {} (.ok "/work") a with hsettled | ⟨d, hdir, -⟩ | ⟨dir, e, hdir, hfails, -⟩
  · exact hsettled
  · cases hdir
  · cases hdir
    rw [hfails] at hpaths
    cases hpaths

end App

end JvmLint
