import Mathlib.Data.List.Nodup
import JvmLint.App.Report
import JvmLint.Proofs.SharedResolver

/-!
# Findings and the rules of a log

A built-in check puts its own name and category on whatever it reports, so every
finding of an analysis belongs to a check that ran. The log of a report declares
one rule for each of these checks, since their names differ, and a result of the
log is graded as its rule is.
-/

namespace JvmLint

/-! ## Whose findings they are -/

def Finding.Of (f : Finding) (i : CheckInfo) : Prop := f.checkName = i.name ∧ f.category = i.category

/-- The check signs all it reports, in whatever class and whatever it learns of others. -/
def Check.Signs (k : Check) : Prop :=
  ∀ c around, (k.findings c around).Always fun fs => ∀ f ∈ fs, f.Of k.toCheckInfo

theorem signs_check (i : CheckInfo) (remarks : Class → Surroundings → Lookup (List Remark)) :
    (i.check remarks).Signs := by
  intro c around
  refine .map (.map (Lookup.always_of_forall ?_ _))
  intro rs f hf
  obtain ⟨r, -, rfl⟩ := List.mem_map.mp hf
  exact ⟨rfl, rfl⟩

theorem signs_builtIn [GlobLibrary] {o : CheckOptions} {registry : Registry}
    (h : Registry.builtIn o = .ok registry) {k : Check}
    (hk : k ∈ registry.checks) : k.Signs := by
  obtain ⟨classifier, hchecks⟩ := Registry.builtIn_checks h
  rw [hchecks] at hk
  revert k
  simp only [Registry.builtInChecks, List.forall_mem_cons]
  exact ⟨signs_check _ _, signs_check _ _, signs_check _ _, signs_check _ _, signs_check _ _, signs_check _ _,
    signs_check _ _, signs_check _ _, signs_check _ _, signs_check _ _, signs_check _ _, signs_check _ _,
    signs_check _ _, by simp⟩

theorem always_analyze {selected : List Check} (hsigns : ∀ k ∈ selected, k.Signs) (reach : Nat) (classes : List Class) :
    (analyze reach classes selected).Always fun fs => ∀ f ∈ fs, ∃ k ∈ selected, f.Of k.toCheckInfo := by
  -- the blocks of findings stay apart, by class and by check, until they are joined at the end
  refine Lookup.Always.bind (P := fun found => ∀ blocks ∈ found, ∀ fs ∈ blocks, ∀ f ∈ fs, ∃ k ∈ selected,
    f.Of k.toCheckInfo) (Lookup.always_mapM fun c _ => Lookup.always_mapM fun k hk => ?_) ?_
  · exact (hsigns k hk c _).imp fun fs hfs f hf => ⟨k, hk, hfs f hf⟩
  · intro found hfound f hf
    simp only [List.mem_flatten] at hf
    obtain ⟨fs, ⟨blocks, hblocks, hfs⟩, hf⟩ := hf
    exact hfound blocks hblocks fs hfs f hf

theorem Analysis.attributed {selected : List Check} (hsigns : ∀ k ∈ selected, k.Signs) {source : Source} {reach : Nat}
    {classes : List (Option Class)} {cancelled : Bool} {r r' : Resolver} {a : Analysis}
    (h : Analysis.run source reach classes selected cancelled r = .ok (a, r')) :
    a.checks = selected.map (·.name) ∧ ∀ f ∈ a.findings, ∃ k ∈ selected, f.Of k.toCheckInfo := by
  unfold Analysis.run at h
  dsimp only at h
  split at h
  · cases h
  · cases h
    exact ⟨rfl, (always_analyze hsigns reach _).runState _ r⟩

namespace Registry

/-- What the built-in checks are called does not depend on how they are set. -/
theorem builtIn_entries [GlobLibrary] {o : CheckOptions} {registry : Registry} (h : builtIn o = .ok registry) :
    registry.entries = (builtInChecks .builtIn ⟨[], []⟩).map (·.toCheckInfo) := by
  obtain ⟨classifier, hchecks⟩ := builtIn_checks h
  rw [entries, hchecks]
  rfl

theorem builtIn_names_nodup [GlobLibrary] {o : CheckOptions} {registry : Registry} (h : builtIn o = .ok registry) :
    (registry.entries.map (·.name)).Nodup := by
  obtain ⟨classifier, hchecks⟩ := builtIn_checks h
  have hlower := builtInChecks_nodup o classifier
  rw [entries, hchecks, List.map_map]
  refine List.Nodup.of_map Text.lower ?_
  rwa [List.map_map]

end Registry

/-! ## What a log says -/

namespace JsonDoc

def field? (key : String) : JsonDoc → Option JsonDoc
  | object fields => fields.lookup key
  | _ => none

def text? : JsonDoc → Option String
  | text s => some s
  | _ => none

def items : JsonDoc → List JsonDoc
  | list l => l
  | _ => []

def at? (d : JsonDoc) (path : List String) : Option JsonDoc := path.foldlM (fun d key => d.field? key) d

def textAt? (d : JsonDoc) (path : List String) : Option String := (d.at? path).bind text?

def itemsAt (d : JsonDoc) (path : List String) : List JsonDoc := ((d.at? path).map items).getD []

end JsonDoc

namespace Sarif

def rulesIn (log : JsonDoc) : List JsonDoc := (log.itemsAt ["runs"]).flatMap (·.itemsAt ["tool", "driver", "rules"])

def resultsIn (log : JsonDoc) : List JsonDoc := (log.itemsAt ["runs"]).flatMap (·.itemsAt ["results"])

theorem rulesIn_document (r : Report) : rulesIn (document r) = (rulesOf r.ruleEntries).map Rule.document := by
  simp [rulesIn, document, JsonDoc.itemsAt, JsonDoc.at?, JsonDoc.field?, JsonDoc.items, List.lookup_cons]

theorem resultsIn_document (r : Report) : resultsIn (document r) = r.findings.map (result (rulesOf r.ruleEntries)) := by
  simp [resultsIn, document, JsonDoc.itemsAt, JsonDoc.at?, JsonDoc.field?, JsonDoc.items, List.lookup_cons]

@[simp] theorem id_document (r : Rule) : r.document.textAt? ["id"] = some r.id := rfl

@[simp] theorem level_document (r : Rule) : r.document.textAt? ["defaultConfiguration", "level"] = some r.level := rfl

@[simp] theorem ruleId_result (rules : List Rule) (f : Finding) :
    (result rules f).textAt? ["ruleId"] = some f.checkName := rfl

@[simp] theorem level_result (rules : List Rule) (f : Finding) :
    (result rules f).textAt? ["level"] = some (level f.category) := rfl

def ruleOf (e : CheckInfo) : Rule :=
  { id := e.name, description := if e.description = "" then e.name else e.description, level := level e.category }

theorem declare_new {rules : List Rule} {r : Rule} (h : r.id ∉ rules.map (·.id)) : declare rules r = rules ++ [r] := by
  have hany : ¬ rules.any (·.id == r.id) = true := by simpa using h
  rw [declare, if_neg hany]

theorem rulesOf_eq_map {entries : List CheckInfo} (h : (entries.map (·.name)).Nodup) :
    rulesOf entries = entries.map ruleOf := by
  -- the rules declared so far are those of the entries gone through, and no name comes again
  suffices hfold : ∀ before, ((before ++ entries).map (·.name)).Nodup →
      entries.foldl (fun rules e => declare rules (ruleOf e)) (before.map ruleOf) = (before ++ entries).map ruleOf by
    exact hfold [] h
  clear h
  induction entries with
  | nil => simp
  | cons e entries ih =>
    intro before hnames
    have hnew : (ruleOf e).id ∉ (before.map ruleOf).map (·.id) := by
      intro hmem
      obtain ⟨e', he', hid⟩ : ∃ e' ∈ before, e'.name = e.name := by simpa [ruleOf] using hmem
      rw [List.map_append, List.nodup_append] at hnames
      exact hnames.2.2 e'.name (List.mem_map_of_mem he') e.name (by simp) hid
    have hstep := ih (before ++ [e]) (by simpa using hnames)
    rw [List.foldl_cons, declare_new hnew]
    simpa using hstep

theorem filter_absent {entries : List CheckInfo} {n : String} (h : n ∉ entries.map (·.name)) :
    entries.filter (·.name == n) = [] := by
  apply List.filter_eq_nil_iff.mpr
  intro e he hname
  exact h (List.mem_map.mpr ⟨e, he, eq_of_beq hname⟩)

/-- A check is found by its name among checks with different names. -/
theorem filter_name {entries : List CheckInfo} (h : (entries.map (·.name)).Nodup) {e : CheckInfo} (he : e ∈ entries) :
    entries.filter (·.name == e.name) = [e] := by
  obtain ⟨before, after, rfl⟩ := List.mem_iff_append.mp he
  simp only [List.map_append, List.map_cons, List.nodup_append, List.nodup_cons] at h
  obtain ⟨-, ⟨hafter, -⟩, hbefore⟩ := h
  have habsent : e.name ∉ before.map (·.name) := fun hmem => hbefore e.name hmem e.name (by simp) rfl
  simp [filter_absent habsent, filter_absent hafter]

/-- A log declares one rule for a check that has an entry. -/
theorem declared_once {r : Report} (h : (r.ruleEntries.map (·.name)).Nodup) {e : CheckInfo} (he : e ∈ r.ruleEntries) :
    (rulesIn (document r)).filter (fun d => d.textAt? ["id"] == some e.name) = [(ruleOf e).document] := by
  have hentries : r.ruleEntries.filter (fun e' => (ruleOf e').document.textAt? ["id"] == some e.name) = [e] := by
    rw [← filter_name h he]
    simp [ruleOf]
  rw [rulesIn_document, rulesOf_eq_map h, List.map_map, List.filter_map]
  exact congrArg (List.map (Rule.document ∘ ruleOf)) hentries

end Sarif

/-- A report has the entries of the checks that ran, if there is one. -/
theorem Settings.ruleEntries_report (s : Settings) (now : Timestamp) {r : RunResult} {e : CheckInfo}
    (he : e ∈ s.registry.entries) (hran : e.name ∈ r.analysis.checks) :
    (s.report now r).ruleEntries = s.registry.entries.filter fun e => r.analysis.checks.contains e.name := by
  have hmem : e ∈ (s.report now r).rules := by simp [report, he, hran]
  have hne : ¬ (s.report now r).rules.isEmpty = true := by
    intro hempty
    rw [List.isEmpty_iff.mp hempty] at hmem
    cases hmem
  rw [Report.ruleEntries, if_neg hne]
  rfl

theorem Settings.declared_report [GlobLibrary] {o : CheckOptions} {s : Settings}
    (h : Registry.builtIn o = .ok s.registry) (now : Timestamp)
    {r : RunResult} {e : CheckInfo} (he : e ∈ s.registry.entries) (hran : e.name ∈ r.analysis.checks) :
    (Sarif.rulesIn (Sarif.document (s.report now r))).filter (fun d => d.textAt? ["id"] == some e.name) =
      [(Sarif.ruleOf e).document] := by
  have hentries := s.ruleEntries_report now he hran
  apply Sarif.declared_once
  · rw [hentries]
    exact (Registry.builtIn_names_nodup h).sublist (List.filter_sublist.map _)
  · rw [hentries]
    exact List.mem_filter.mpr ⟨he, by simpa using hran⟩

/-- Each finding of an analysis is signed by a check that ran. The log of a report lists the findings as results,
and for each it declares one rule, which has the same level. The settings of the report may have been
replaced since the analysis. -/
theorem Analysis.findings_declared [GlobLibrary] {o o' : CheckOptions} {registry : Registry} {s : Settings}
    (hbuilt : Registry.builtIn o = .ok registry) (hreport : Registry.builtIn o' = .ok s.registry)
    {selected : List Check} (hselected : ∀ k ∈ selected, k ∈ registry.checks) (source : Source) (reach : Nat)
    (classes : List (Option Class)) (r : Resolver) (now : Timestamp) :
    (∃ outcome, Analysis.run source reach classes selected false r = .ok outcome) ∧
    ∀ cancelled (result : RunResult) r', Analysis.run source reach classes selected cancelled r = .ok (result.analysis, r') →
      (∀ f ∈ result.analysis.findings, (∃ k ∈ selected, f.checkName = k.name ∧ f.category = k.category) ∧
        f.checkName ∈ result.analysis.checks) ∧
      let log := Sarif.document (s.report now result)
      (Sarif.resultsIn log).map (fun d => (d.textAt? ["ruleId"], d.textAt? ["level"])) =
        result.analysis.findings.map (fun f => (some f.checkName, some (Sarif.level f.category))) ∧
      ∀ d ∈ Sarif.resultsIn log, ∃ rule,
        (Sarif.rulesIn log).filter (fun d' => d'.textAt? ["id"] == d.textAt? ["ruleId"]) = [rule] ∧
        rule.textAt? ["defaultConfiguration", "level"] = d.textAt? ["level"] := by
  refine ⟨⟨_, rfl⟩, ?_⟩
  intro cancelled result r' hrun
  obtain ⟨hchecks, hsigned⟩ := Analysis.attributed (fun k hk => signs_builtIn hbuilt (hselected k hk)) hrun
  have hran : ∀ k ∈ selected, k.name ∈ result.analysis.checks := by
    intro k hk
    rw [hchecks]
    exact List.mem_map_of_mem hk
  refine ⟨?_, ?_, ?_⟩
  · intro f hf
    obtain ⟨k, hk, hname, hcategory⟩ := hsigned f hf
    exact ⟨⟨k, hk, hname, hcategory⟩, hname ▸ hran k hk⟩
  · rw [Sarif.resultsIn_document, List.map_map]
    exact List.map_congr_left fun f _ => by simp
  · intro d hd
    rw [Sarif.resultsIn_document] at hd
    obtain ⟨f, hf, rfl⟩ := List.mem_map.mp hd
    obtain ⟨k, hk, hname, hcategory⟩ := hsigned f hf
    have hentry : k.toCheckInfo ∈ s.registry.entries := by
      rw [Registry.builtIn_entries hreport, ← Registry.builtIn_entries hbuilt]
      exact List.mem_map_of_mem (hselected k hk)
    have hrule := Settings.declared_report hreport now hentry (hran k hk)
    refine ⟨(Sarif.ruleOf k.toCheckInfo).document, ?_, ?_⟩
    · rw [Sarif.ruleId_result, hname]
      exact hrule
    · rw [Sarif.level_document, Sarif.level_result, hcategory]
      rfl

theorem Analysis.findings_declared_openStep :
    ∃ (registry : Registry) (result : RunResult) (r' : Resolver), Registry.builtIn .builtIn = .ok registry ∧
      Analysis.run openSource 2 [some openStep, none, some openPlan] registry.checks false {} = .ok (result.analysis, r') ∧
      result.analysis.findings = [⟨"AbstractImplementation", .style, "Step",
        "Class Step does not implement abstract method 'run()V' from Plan"⟩] ∧
      "AbstractImplementation" ∈ result.analysis.checks ∧
      ∃ rule, (Sarif.rulesIn (Sarif.document (Settings.report { Settings.initial none with registry } .zero result))).filter
          (fun d => d.textAt? ["id"] == some "AbstractImplementation") = [rule] ∧
        rule.textAt? ["defaultConfiguration", "level"] = some "note" := by
  have hbuilt : Registry.builtIn .builtIn = .ok ⟨Registry.builtInChecks .builtIn ⟨[], []⟩⟩ :=
    Registry.builtIn_of_model rfl
  let settings : Settings := { Settings.initial none with registry := ⟨Registry.builtInChecks .builtIn ⟨[], []⟩⟩ }
  obtain ⟨⟨⟨analysis, r'⟩, hrun⟩, hdeclared⟩ := Analysis.findings_declared (s := settings) hbuilt hbuilt (fun _ hk => hk)
    openSource 2 [some openStep, none, some openPlan] {} .zero
  have hfindings : analysis.findings = [⟨"AbstractImplementation", .style, "Step",
      "Class Step does not implement abstract method 'run()V' from Plan"⟩] := by
    cases hrun
    rfl
  obtain ⟨hsigned, hresults, hrules⟩ := hdeclared false { analysis } r' hrun
  have hchecks := (hsigned _ (hfindings ▸ List.mem_singleton_self _)).2
  rw [hfindings, List.map_singleton, List.map_eq_singleton_iff] at hresults
  obtain ⟨d, hd, htexts⟩ := hresults
  obtain ⟨rule, hrule, hlevel⟩ := hrules d (hd ▸ List.mem_singleton_self _)
  rw [Prod.mk.injEq] at htexts
  rw [htexts.1] at hrule
  rw [htexts.2] at hlevel
  exact ⟨_, { analysis }, r', hbuilt, hrun, hfindings, hchecks, rule, hrule, hlevel⟩

end JvmLint
