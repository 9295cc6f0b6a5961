import JvmLint.Proofs.StoreTables
import JvmLint.Proofs.StoredTimes

/-!
# Kept runs

A store is compared with a ledger: the list of the runs that were saved and not pruned, each as it is to
be given back. Every step of the store is a step of the ledger, and the tables hold the rows of the
ledger's runs and no others. So a run of the ledger is loaded as it stands there, an id that the ledger
has cannot be saved again, and no finding is left without its run.
-/

namespace JvmLint

/-! ## Runs and their rows -/

def storedKey (key : String) : String := if Text.trim key = "" then "default" else Text.trim key

namespace Run

/-- The run as it is given back: under the trimmed project, in UTC, with whole milliseconds and the number
of its findings. -/
def kept (fresh : String) (now : Timestamp) (r : Run) : Run :=
  { id := if r.id = "" then fresh else r.id
    project := storedKey r.project
    timestamp := { nanos := if r.timestamp.isZero then now.nanos else r.timestamp.nanos }
    classes := r.classes
    findingCount := r.findings.length
    loadFailures := r.loadFailures
    duration := r.duration.tdiv 1000000 * 1000000
    checks := r.checks
    findings := r.findings }

def listed (r : Run) : Run := { r with findings := [] }

/-- The run is of a later instant, or of the same instant and a smaller id. -/
def newer (a b : Run) : Bool :=
  b.timestamp.nanos < a.timestamp.nanos || (a.timestamp.nanos == b.timestamp.nanos && decide (a.id < b.id))

structure Settled (r : Run) : Prop where
  storable : r.timestamp.Storable
  utc : r.timestamp.utc = r.timestamp
  millis : r.duration.tdiv 1000000 * 1000000 = r.duration

variable {r a b : Run} {fresh : String} {now : Timestamp}

theorem settled_kept (h : (r.kept fresh now).timestamp.Storable) : (r.kept fresh now).Settled := by
  refine ⟨h, rfl, ?_⟩
  simp only [kept]
  rw [Int.mul_tdiv_cancel _ (by decide)]

theorem toRun_ofRun (h : r.Settled) : (RunRow.ofRun r).toRun = .ok r.listed := by
  have hmillis : Duration.toMillis r.duration * (Duration.millisecond : Nat) = r.duration := h.millis
  have hutc : r.timestamp.utc.utc = r.timestamp := h.utc
  simp only [RunRow.toRun, RunRow.ofRun, Timestamp.parse?_stored h.storable, hmillis, hutc, listed]

theorem ofRun_complete (fresh : String) (now : Timestamp) (r : Run) :
    RunRow.ofRun (Store.complete fresh now r) = RunRow.ofRun (r.kept fresh now) := by
  have htime : (if r.timestamp.isZero then now else r.timestamp).utc = (r.kept fresh now).timestamp := by
    by_cases h : r.timestamp.isZero
    · simp [h, kept, Timestamp.utc]
    · simp [h, kept, Timestamp.utc]
  have hmillis : Duration.toMillis (r.kept fresh now).duration = Duration.toMillis r.duration :=
    Int.mul_tdiv_cancel _ (by decide)
  simp only [RunRow.ofRun, Store.complete, htime, hmillis]
  rfl

theorem newer_ofRun (ha : a.timestamp.Storable) (hb : b.timestamp.Storable) :
    (RunRow.ofRun a).newer (RunRow.ofRun b) = a.newer b := by
  rw [Bool.eq_iff_iff, RunRow.newer_iff]
  simp [newer, RunRow.ofRun, Timestamp.stored_lt_iff hb ha, Timestamp.stored_inj ha hb]

end Run

namespace Tables

def ofRuns (rs : List Run) : Tables := { runs := some (rs.map .ofRun), findings := some (rs.flatMap findingRows) }

theorem run_of_mem_findingRows {r : Run} {x : FindingRow} (h : x ∈ findingRows r) : x.run = r.id := by
  unfold findingRows at h
  obtain ⟨⟨y, i⟩, -, rfl⟩ := List.mem_map.1 h
  rfl

/-- Findings that are chosen by their run are the findings of the runs that are chosen. -/
theorem filter_findingRows (p : String → Bool) (rs : List Run) :
    (rs.flatMap findingRows).filter (fun x => p x.run) = (rs.filter fun r => p r.id).flatMap findingRows := by
  induction rs with
  | nil => rfl
  | cons r rs ih =>
    rw [List.flatMap_cons, List.filter_append, ih]
    by_cases h : p r.id = true
    · have hall : (findingRows r).filter (fun x => p x.run) = findingRows r := by
        rw [List.filter_eq_self]
        intro x hx
        rwa [run_of_mem_findingRows hx]
      simp [h, hall]
    · have hnone : (findingRows r).filter (fun x => p x.run) = [] := by
        rw [List.filter_eq_nil_iff]
        intro x hx
        rwa [run_of_mem_findingRows hx]
      simp [h, hnone]

theorem findings_of_rows (r : Run) :
    ((findingRows r).mergeSort fun a b => a.seq ≤ b.seq).map (·.finding) = r.findings := by
  have hseq : (findingRows r).map (·.seq) = List.range' 0 r.findings.length := by
    simp only [findingRows, List.map_map]
    exact List.zipIdx_map_snd 0 r.findings
  have hsorted : (findingRows r).Pairwise fun a b => decide (a.seq ≤ b.seq) = true := by
    have hrange : ((findingRows r).map (·.seq)).Pairwise (· < ·) := hseq ▸ List.pairwise_lt_range' 1
    refine (List.pairwise_map.1 hrange).imp fun hlt => ?_
    simpa using Nat.le_of_lt hlt
  rw [List.mergeSort_of_pairwise hsorted]
  simp only [findingRows, List.map_map]
  exact List.zipIdx_map_fst 0 r.findings

theorem filter_id {rs : List Run} (hdistinct : (rs.map (·.id)).Nodup) {r : Run} (hr : r ∈ rs) :
    rs.filter (·.id == r.id) = [r] := by
  obtain ⟨front, rest, rfl⟩ := List.append_of_mem hr
  simp only [List.map_append, List.map_cons, List.nodup_append, List.nodup_cons, List.mem_map, List.mem_cons] at hdistinct
  obtain ⟨-, ⟨hrest, -⟩, hfront⟩ := hdistinct
  have hnone : front.filter (·.id == r.id) = [] := by
    rw [List.filter_eq_nil_iff]
    intro x hx
    simpa using hfront x.id ⟨x, hx, rfl⟩ r.id (.inl rfl)
  have hnone' : rest.filter (·.id == r.id) = [] := by
    rw [List.filter_eq_nil_iff]
    intro x hx
    simpa using fun hid : x.id = r.id => hrest ⟨x, hx, hid⟩
  simp [hnone, hnone']

theorem findingsOf_ofRuns {rs : List Run} (hdistinct : (rs.map (·.id)).Nodup) {r : Run} (hr : r ∈ rs) :
    (ofRuns rs).findingsOf r.id = .ok r.findings := by
  have hrows : (rs.flatMap findingRows).filter (·.run == r.id) = findingRows r := by
    rw [filter_findingRows (· == r.id), filter_id hdistinct hr, List.flatMap_singleton]
  simp only [findingsOf, findingTable, ofRuns, bind, Except.bind, hrows, findings_of_rows]
  rfl

end Tables

/-! ## Stores and ledgers -/

inductive StoreStep where
  | save (locked : Bool) (fresh : String) (now : Timestamp) (r : Run)
  | prune (locked : Bool) (project : String) (keep : Int)
deriving DecidableEq, Repr

namespace StoreStep

def files (s : Store) (f : Files) : StoreStep → Files
  | save locked fresh now r =>
    match s.save f locked fresh now r with
    | .ok (_, f') => f'
    | .error _ => f
  | prune locked project keep =>
    match s.prune f locked project keep with
    | .ok (_, f') => f'
    | .error _ => f

/-- A run of another project survives, and one with fewer newer runs of the project than are to be kept. -/
def survives (rs : List Run) (project : String) (keep : Int) (r : Run) : Bool :=
  r.project != project || keep < 0 || (rs.countP fun x => x.project == project && x.newer r) < keep

def ledger (rs : List Run) : StoreStep → List Run
  | save locked fresh now r =>
    if locked || rs.any (·.id == (r.kept fresh now).id) then rs else rs ++ [r.kept fresh now]
  | prune locked project keep => if locked then rs else rs.filter (survives rs project keep)

def ledgerOf (sts : List StoreStep) : List Run := sts.foldl ledger []

def Timed : StoreStep → Prop
  | save _ fresh now r => (r.kept fresh now).timestamp.Storable
  | prune .. => True

instance : DecidablePred Timed
  | save _ fresh now r => inferInstanceAs (Decidable (r.kept fresh now).timestamp.Storable)
  | prune .. => .isTrue trivial

end StoreStep

namespace Store

variable {s : Store} {f : Files} {rs : List Run}

def after (s : Store) (f : Files) (sts : List StoreStep) : Files := sts.foldl (StoreStep.files s) f

theorem after_snoc (s : Store) (f : Files) (sts : List StoreStep) (st : StoreStep) :
    s.after f (sts ++ [st]) = st.files s (s.after f sts) := by
  simp [after]

structure Keeps (s : Store) (f : Files) (rs : List Run) : Prop where
  holds : s.Holds f (.ofRuns rs)
  distinct : (rs.map (·.id)).Nodup
  settled : ∀ r ∈ rs, r.Settled

theorem insert_complete (rows : List RunRow) (fs : List FindingRow) (vs : List Int) (locked : Bool) (fresh : String)
    (now : Timestamp) (r : Run) :
    (⟨some rows, some fs, vs⟩ : Tables).insert locked (complete fresh now r) =
      if locked then .error .locked
      else if rows.any (·.id == (r.kept fresh now).id) then .error .duplicateRun
      else .ok ⟨some (rows ++ [.ofRun (r.kept fresh now)]), some (fs ++ Tables.findingRows (r.kept fresh now)), vs⟩ := by
  have hid : (complete fresh now r).id = (r.kept fresh now).id := rfl
  have hrows : Tables.findingRows (complete fresh now r) = Tables.findingRows (r.kept fresh now) := rfl
  rw [Tables.insert_eq, Run.ofRun_complete, hid, hrows]

theorem insert_ofRuns (rs : List Run) (locked : Bool) (fresh : String) (now : Timestamp) (r : Run) :
    (Tables.ofRuns rs).insert locked (complete fresh now r) =
      if locked then .error .locked
      else if rs.any (·.id == (r.kept fresh now).id) then .error .duplicateRun
      else .ok (.ofRuns (rs ++ [r.kept fresh now])) := by
  unfold Tables.ofRuns
  rw [insert_complete]
  simp [List.any_map, Function.comp_def, RunRow.ofRun]

theorem Keeps.save_step (h : s.Keeps f rs) {locked : Bool} {fresh : String} {now : Timestamp} {r : Run}
    (htime : (r.kept fresh now).timestamp.Storable) :
    s.Keeps ((StoreStep.save locked fresh now r).files s f) ((StoreStep.save locked fresh now r).ledger rs) := by
  unfold StoreStep.files StoreStep.ledger
  simp only [h.holds.save, insert_ofRuns]
  by_cases hlocked : locked = true
  · simpa [hlocked] using h
  by_cases hknown : rs.any (·.id == (r.kept fresh now).id) = true
  · simpa [hlocked, hknown] using h
  simp only [hlocked, hknown, Bool.false_eq_true, if_false, Bool.or_self]
  refine ⟨h.holds.put _, ?_, ?_⟩
  · apply nodup_snoc h.distinct
    simpa using hknown
  · intro x hx
    rcases List.mem_append.1 hx with hx | hx
    · exact h.settled x hx
    · rw [List.mem_singleton.1 hx]
      exact Run.settled_kept htime

theorem Keeps.distinct_rows (h : s.Keeps f rs) : ((rs.map RunRow.ofRun).map (·.id)).Nodup := by
  rw [List.map_map]
  exact h.distinct

theorem Keeps.isGone (h : s.Keeps f rs) {r : Run} (hr : r ∈ rs) (project : String) (keep : Int) :
    Tables.isGone (rs.map .ofRun) project keep (.ofRun r) = !StoreStep.survives rs project keep r := by
  have hcount : ((rs.map RunRow.ofRun).countP fun y => y.project == project && y.newer (.ofRun r)) =
      rs.countP fun x => x.project == project && x.newer r := by
    rw [List.countP_map]
    refine List.countP_congr fun x hx => ?_
    rw [Function.comp_apply, Run.newer_ofRun (h.settled x hx).storable (h.settled r hr).storable]
    rfl
  rw [Bool.eq_iff_iff, Tables.isGone_iff h.distinct_rows (List.mem_map_of_mem hr), hcount]
  simp [StoreStep.survives, RunRow.ofRun, and_assoc]

theorem Keeps.contains_gone (h : s.Keeps f rs) {r : Run} (hr : r ∈ rs) (project : String) (keep : Int) :
    (Tables.gone (rs.map .ofRun) project keep).contains r.id = !StoreStep.survives rs project keep r := by
  rw [← h.isGone hr]
  exact Tables.contains_gone h.distinct_rows (List.mem_map_of_mem hr) project keep

theorem Keeps.prune_ofRuns (h : s.Keeps f rs) (project : String) (keep : Int) :
    (Tables.ofRuns rs).prune false project keep =
      .ok (rs.countP fun r => !StoreStep.survives rs project keep r,
        .ofRuns (rs.filter (StoreStep.survives rs project keep))) := by
  have hcount : (Tables.gone (rs.map .ofRun) project keep).length =
      rs.countP fun r => !StoreStep.survives rs project keep r := by
    rw [Tables.gone, List.length_map, ← List.countP_eq_length_filter, List.countP_map]
    refine List.countP_congr fun r hr => ?_
    rw [Function.comp_apply, h.isGone hr]
  have hruns : (rs.map RunRow.ofRun).filter (!Tables.isGone (rs.map .ofRun) project keep ·) =
      (rs.filter (StoreStep.survives rs project keep)).map RunRow.ofRun := by
    rw [List.filter_map]
    congr 1
    refine List.filter_congr fun r hr => ?_
    rw [Function.comp_apply, h.isGone hr, Bool.not_not]
  have hfindings : (rs.filter fun r => !(Tables.gone (rs.map .ofRun) project keep).contains r.id) =
      rs.filter (StoreStep.survives rs project keep) := by
    refine List.filter_congr fun r hr => ?_
    rw [h.contains_gone hr, Bool.not_not]
  unfold Tables.ofRuns
  rw [Tables.prune_eq]
  simp only [Bool.false_eq_true, if_false]
  rw [hcount, hruns, Tables.filter_findingRows fun id => !(Tables.gone (rs.map .ofRun) project keep).contains id,
    hfindings]

theorem Keeps.prune_step (h : s.Keeps f rs) {locked : Bool} {project : String} {keep : Int} :
    s.Keeps ((StoreStep.prune locked project keep).files s f) ((StoreStep.prune locked project keep).ledger rs) := by
  unfold StoreStep.files StoreStep.ledger
  simp only [h.holds.prune]
  cases locked with
  | true => exact h
  | false =>
    rw [h.prune_ofRuns]
    refine ⟨h.holds.put _, h.distinct.sublist (List.filter_sublist.map _), ?_⟩
    intro r hr
    exact h.settled r (List.mem_filter.1 hr).1

theorem Keeps.step (h : s.Keeps f rs) {st : StoreStep} (htime : st.Timed) : s.Keeps (st.files s f) (st.ledger rs) := by
  cases st with
  | save locked fresh now r => exact h.save_step htime
  | prune locked project keep => exact h.prune_step

theorem Keeps.after (h : s.Keeps f rs) {sts : List StoreStep} (htimes : ∀ st ∈ sts, st.Timed) :
    s.Keeps (s.after f sts) (sts.foldl StoreStep.ledger rs) := by
  induction sts generalizing f rs with
  | nil => exact h
  | cons st sts ih =>
    have hfirst := h.step (htimes st (by simp))
    exact ih hfirst fun x hx => htimes x (by simp [hx])

theorem keeps_of_open {f₀ : Files} {raw : String} (hopen : open_ f raw = .ok (s, f₀)) (hnew : s.tables f₀ = .ok {}) :
    s.Keeps f₀ [] := by
  obtain ⟨t, ht⟩ := holds_of_open hopen
  rw [ht.tables] at hnew
  cases hnew
  exact ⟨ht, List.nodup_nil, fun r hr => by cases hr⟩

/-! ## What a store gives back -/

theorem Keeps.load (h : s.Keeps f rs) {r : Run} (hr : r ∈ rs) : s.load f r.id = .ok r := by
  have hfind : (rs.map RunRow.ofRun).find? (·.id == r.id) = some (.ofRun r) := by
    have hfirst : rs.find? (·.id == r.id) = some r := by
      rw [← List.head?_filter, Tables.filter_id h.distinct hr, List.head?_cons]
    rw [List.find?_map]
    exact congrArg _ hfirst
  simp only [Store.load, Store.findings, h.holds.tables, bind, Except.bind, Tables.findingsOf_ofRuns h.distinct hr]
  simp only [Tables.ofRuns, Tables.runTable, hfind, Run.toRun_ofRun (h.settled r hr), Except.mapError]
  rfl

theorem Keeps.load_missing (h : s.Keeps f rs) {id : String} (hid : ∀ r ∈ rs, r.id ≠ id) :
    s.load f id = .error (.runNotFound id) := by
  have hfind : (rs.map RunRow.ofRun).find? (·.id == id) = none := by
    rw [List.find?_eq_none]
    intro x hx
    obtain ⟨r, hr, rfl⟩ := List.mem_map.1 hx
    simpa [RunRow.ofRun] using hid r hr
  simp only [Store.load, h.holds.tables, bind, Except.bind, Tables.ofRuns, Tables.runTable, hfind]

theorem Keeps.save_known (h : s.Keeps f rs) (locked : Bool) {fresh : String} {now : Timestamp} {r : Run}
    (hid : ∃ x ∈ rs, x.id = (r.kept fresh now).id) :
    s.save f locked fresh now r = .error (.query "save run" (if locked then .locked else .duplicateRun)) := by
  have hany : rs.any (·.id == (r.kept fresh now).id) = true := by simpa using hid
  rw [h.holds.save, insert_ofRuns, hany]
  cases locked <;> rfl

theorem Keeps.owned (h : s.Keeps f rs) :
    ∃ runs findings versions, s.tables f = .ok ⟨some runs, some findings, versions⟩ ∧
      ∀ x ∈ findings, ∃ row ∈ runs, row.id = x.run := by
  refine ⟨_, _, _, h.holds.tables, ?_⟩
  intro x hx
  obtain ⟨r, hr, hxr⟩ := List.mem_flatMap.1 hx
  exact ⟨_, List.mem_map_of_mem hr, (Tables.run_of_mem_findingRows hxr).symm⟩

/-- Whatever is done to a new store: a run of the ledger is loaded as it stands there and no other run is
found, an id of the ledger is refused and nothing changes, and each finding in the tables has its run. -/
theorem keeps_ledger {f₀ : Files} {raw : String} (hopen : open_ f raw = .ok (s, f₀)) (hnew : s.tables f₀ = .ok {})
    {sts : List StoreStep} (htimes : ∀ st ∈ sts, st.Timed) :
    (∀ r ∈ StoreStep.ledgerOf sts, s.load (s.after f₀ sts) r.id = .ok r) ∧
    (∀ id, (∀ r ∈ StoreStep.ledgerOf sts, r.id ≠ id) → s.load (s.after f₀ sts) id = .error (.runNotFound id)) ∧
    (∀ locked fresh now r, (∃ x ∈ StoreStep.ledgerOf sts, x.id = (r.kept fresh now).id) →
      (∃ d, s.save (s.after f₀ sts) locked fresh now r = .error (.query "save run" d)) ∧
        s.after f₀ (sts ++ [.save locked fresh now r]) = s.after f₀ sts) ∧
    ∃ runs findings versions, s.tables (s.after f₀ sts) = .ok ⟨some runs, some findings, versions⟩ ∧
      ∀ x ∈ findings, ∃ row ∈ runs, row.id = x.run := by
  have hkeeps : s.Keeps (s.after f₀ sts) (StoreStep.ledgerOf sts) := (keeps_of_open hopen hnew).after htimes
  refine ⟨fun r hr => hkeeps.load hr, fun id hid => hkeeps.load_missing hid, ?_, hkeeps.owned⟩
  intro locked fresh now r hid
  have hrefused := hkeeps.save_known locked hid
  refine ⟨⟨_, hrefused⟩, ?_⟩
  rw [after_snoc, StoreStep.files, hrefused]

/-- Two runs of one project, with an attempt to save the first again; then only the newest is kept. -/
def twoRuns : List StoreStep := [
  .save false "" .zero {
    id := "a", project := " lead ", timestamp := { nanos := 1704067200000000000 }, classes := 3
    findings := [⟨"IMC", .pattern, "demo.A", "first"⟩] },
  .save false "" .zero {
    id := "b", project := "lead", timestamp := { nanos := 1704067200000000001, offset := 60 }, classes := 7
    loadFailures := 2, duration := -1999999, checks := "IMC,LPC"
    findings := [⟨"LPC", .style, "demo.B", "second"⟩, ⟨"IMC", .pattern, "demo.B", "first"⟩] },
  .save false "" .zero { id := "a", project := "other", timestamp := { nanos := 1 } },
  .prune false "lead" 1]

def lastRun : Run := {
  id := "b", project := "lead", timestamp := { nanos := 1704067200000000001 }, classes := 7, findingCount := 2
  loadFailures := 2, duration := -1000000, checks := "IMC,LPC"
  findings := [⟨"LPC", .style, "demo.B", "second"⟩, ⟨"IMC", .pattern, "demo.B", "first"⟩] }

theorem ledgerOf_twoRuns : StoreStep.ledgerOf twoRuns = [lastRun] := by
  decide

def newStore : Store := { path := "runs.db", place := ["runs.db"] }

def newFiles : Files := { nodes := [(["runs.db"], .file (.history {}))] }

theorem open_new : open_ {} "runs.db" = .ok (newStore, newFiles) := by
  have hlocate : ({} : Files).locate true "runs.db" = .ok ["runs.db"] := by
    have hfollow : ({} : Files).follow true 40 [] ["runs.db"] = .ok ["runs.db"] := by
      rw [Files.follow]
      rfl
    exact hfollow
  have hdir : ({} : Files).isDir "runs.db" = false := by
    rw [Files.isDir, Files.stat, Files.find, hlocate]
    rfl
  have htrim : Text.trim "runs.db" = "runs.db" := by decide
  have hfile : openFile {} "runs.db" = .ok (newStore, newFiles) := by
    simp only [openFile, hlocate]
    rfl
  simp only [open_, htrim, hdir]
  rw [if_neg (by decide), if_neg (by decide), if_pos (by decide)]
  exact hfile

theorem keeps_ledger_twoRuns :
    open_ {} "runs.db" = .ok (newStore, newFiles) ∧ newStore.tables newFiles = .ok {} ∧
    (∀ st ∈ twoRuns, st.Timed) ∧ newStore.load (newStore.after newFiles twoRuns) "b" = .ok lastRun ∧
    newStore.load (newStore.after newFiles twoRuns) "a" = .error (.runNotFound "a") := by
  have htimes : ∀ st ∈ twoRuns, st.Timed := by decide
  obtain ⟨hload, hmissing, -, -⟩ := keeps_ledger open_new rfl htimes
  rw [ledgerOf_twoRuns] at hload hmissing
  exact ⟨open_new, rfl, htimes, hload lastRun (by simp), hmissing "a" (by simp [lastRun])⟩

end Store

end JvmLint
