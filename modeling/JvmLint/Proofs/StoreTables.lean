import JvmLint.History.Store
import Mathlib.Data.List.Nodup

/-!
# What the operations of a store do to its tables

An open store answers from the tables in its file. Saving adds a row for the run and one for each of its
findings; pruning takes away the rows of all runs of a project but the newest ones, together with their
findings. A run is among the newest if few enough of its project come before it.
-/

namespace JvmLint

/-! ## The file of a store -/

theorem Files.lookup_replaced {nodes : List (Place × FileNode)} {p : Place} {n : FileNode}
    (h : nodes.any (·.1 == p) = true) :
    (nodes.map fun (q, m) => if q = p then (q, n) else (q, m)).lookup p = some n := by
  induction nodes with
  | nil => cases h
  | cons head nodes ih =>
    obtain ⟨q, m⟩ := head
    by_cases hq : q = p
    · subst hq
      simp
    · have hkey : (p == q) = false := by simpa using fun hpq : p = q => hq hpq.symm
      have hrest : nodes.any (·.1 == p) = true := by simpa [hq] using h
      simpa [List.lookup_cons, hq, hkey] using ih hrest

theorem Files.node?_put {f : Files} {p : Place} {n : FileNode} (hp : p ≠ []) : (f.put p n).node? p = some n := by
  have hnonempty : p.isEmpty = false := by simpa using hp
  unfold node? put
  by_cases h : f.nodes.any (·.1 == p) = true
  · simp only [h, if_true, hnonempty, Bool.false_eq_true, if_false]
    exact lookup_replaced h
  · have hnone : f.nodes.lookup p = none := by
      rw [List.lookup_eq_none_iff]
      intro q hq
      simp only [List.any_eq_true, not_exists, not_and, beq_iff_eq] at h
      simpa using fun hpq : p = q.1 => h q hq hpq.symm
    simp [h, hp, List.lookup_append, hnone]

namespace Store

variable {s : Store} {f : Files} {t : Tables}

structure Holds (s : Store) (f : Files) (t : Tables) : Prop where
  isOpen : s.closed = false
  found : f.node? s.place = some (.file (.history t))

theorem Holds.tables (h : s.Holds f t) : s.tables f = .ok t := by
  simp [Store.tables, h.isOpen, h.found]

theorem Holds.place_ne (h : s.Holds f t) : s.place ≠ [] := by
  intro hroot
  have hfound := h.found
  rw [hroot] at hfound
  cases hfound

theorem Holds.put (h : s.Holds f t) (t' : Tables) : s.Holds (f.put s.place (.file (.history t'))) t' :=
  ⟨h.isOpen, Files.node?_put h.place_ne⟩

theorem place_ne_of_tablesOf? {p : Place} (h : tablesOf? ((f.node? p).getD (.file (.bytes []))) = some t) : p ≠ [] := by
  intro hroot
  subst hroot
  cases h

theorem holds_of_openFile {f₀ : Files} {path : String} (h : openFile f path = .ok (s, f₀)) : ∃ t, s.Holds f₀ t := by
  unfold openFile at h
  simp only at h
  split at h
  · cases h
  split at h
  · cases h
  rename_i t ht
  cases hmigrate : (migrate t).mapError fun e => e.label ("initialize sqlite schema " ++ Text.quote path) with
  | error e =>
    rw [hmigrate] at h
    cases h
  | ok t' =>
    rw [hmigrate] at h
    cases h
    exact ⟨t', rfl, Files.node?_put (place_ne_of_tablesOf? ht)⟩

theorem holds_of_open {f₀ : Files} {raw : String} (h : open_ f raw = .ok (s, f₀)) : ∃ t, s.Holds f₀ t := by
  unfold open_ at h
  simp only at h
  split at h
  · cases h
  split at h
  · cases h
  split at h
  · exact holds_of_openFile h
  · cases hmade : (f.mkdirAll (Path.dir (Text.trim raw))).mapError fun e =>
        e.fault.label ("create history directory " ++ Text.quote (Path.dir (Text.trim raw))) with
    | error e =>
      rw [hmade] at h
      cases h
    | ok g =>
      rw [hmade] at h
      exact holds_of_openFile h

theorem Holds.save (h : s.Holds f t) (locked : Bool) (fresh : String) (now : Timestamp) (r : Run) :
    s.save f locked fresh now r =
      match t.insert locked (complete fresh now r) with
      | .ok t' => .ok (complete fresh now r, f.put s.place (.file (.history t')))
      | .error d => .error (.query "save run" d) := by
  simp only [Store.save, h.tables]
  rfl

theorem Holds.prune (h : s.Holds f t) (locked : Bool) (project : String) (keep : Int) :
    s.prune f locked project keep =
      match t.prune locked project keep with
      | .ok (n, t') => .ok (n, f.put s.place (.file (.history t')))
      | .error d => .error (.query "prune runs" d) := by
  simp only [Store.prune, h.tables]
  rcases ht : t.prune locked project keep with d | ⟨n, t'⟩ <;> simp [bind, Except.bind, ht]

end Store

/-! ## Rows and their ids -/

theorem nodup_snoc {α β : Type} {g : α → β} {l : List α} {a : α} (h : (l.map g).Nodup) (hnew : ∀ x ∈ l, g x ≠ g a) :
    ((l ++ [a]).map g).Nodup := by
  rw [List.map_append, List.nodup_append]
  refine ⟨h, by simp, ?_⟩
  intro y hy z hz
  obtain ⟨x, hx, rfl⟩ := List.mem_map.1 hy
  simp only [List.map_cons, List.map_nil, List.mem_singleton] at hz
  rw [hz]
  exact hnew x hx

/-- In a sorted list, those come among the first few that have few enough before them. -/
theorem mem_take_iff_countP {α : Type} {lt : α → α → Bool} {l : List α} (hsorted : l.Pairwise fun a b => lt a b)
    (hasymm : ∀ a b, lt a b → lt b a = false) {x : α} (hx : x ∈ l) (k : Nat) : x ∈ l.take k ↔ l.countP (lt · x) < k := by
  have hirrefl : ∀ a, lt a a = false := by
    intro a
    cases h : lt a a with
    | false => rfl
    | true => exact h ▸ hasymm a a h
  induction l generalizing k with
  | nil => cases hx
  | cons a l ih =>
    obtain ⟨hfirst, hrest⟩ := List.pairwise_cons.1 hsorted
    cases k with
    | zero => simp
    | succ k =>
      by_cases hxa : x = a
      · have hnone : l.countP (lt · a) = 0 := by
          rw [List.countP_eq_zero]
          intro b hb
          simp [hasymm a b (hfirst b hb)]
        simp [hxa, hirrefl, hnone]
      · have hxl : x ∈ l := by simpa [hxa] using hx
        simp [hxa, hfirst x hxl, ih hrest hxl]

namespace RunRow

def newer (a b : RunRow) : Bool := b.timestamp < a.timestamp || (a.timestamp == b.timestamp && decide (a.id < b.id))

variable {a b : RunRow}

theorem newer_iff : a.newer b ↔ b.timestamp < a.timestamp ∨ a.timestamp = b.timestamp ∧ a.id < b.id := by
  simp [newer]

theorem before_iff : a.before b ↔ b.timestamp < a.timestamp ∨ a.timestamp = b.timestamp ∧ a.id ≤ b.id := by
  unfold before
  by_cases h : a.timestamp = b.timestamp
  · simp only [h, if_true, decide_eq_true_eq, String.lt_irrefl, false_or, true_and]
  · simp [h]

theorem before_trans (a b c : RunRow) (hab : a.before b) (hbc : b.before c) : a.before c := by
  rw [before_iff] at hab hbc ⊢
  rcases hab with hab | ⟨hab, hid⟩
  · rcases hbc with hbc | ⟨hbc, -⟩
    · exact .inl (String.lt_trans hbc hab)
    · exact .inl (hbc ▸ hab)
  · rcases hbc with hbc | ⟨hbc, hid'⟩
    · exact .inl (hab ▸ hbc)
    · exact .inr ⟨hab.trans hbc, String.le_trans hid hid'⟩

theorem before_total (a b : RunRow) : (a.before b || b.before a) = true := by
  rw [Bool.or_eq_true, before_iff, before_iff]
  rcases Std.lt_trichotomy a.timestamp b.timestamp with hlt | heq | hlt
  · exact .inr (.inl hlt)
  · rcases String.le_total a.id b.id with hid | hid
    · exact .inl (.inr ⟨heq, hid⟩)
    · exact .inr (.inr ⟨heq.symm, hid⟩)
  · exact .inl (.inl hlt)

theorem newer_asymm (h : a.newer b) : b.newer a = false := by
  rw [← Bool.not_eq_true]
  intro h'
  rw [newer_iff] at h h'
  rcases h with hlt | ⟨heq, hid⟩
  · rcases h' with hlt' | ⟨heq', -⟩
    · exact String.lt_asymm hlt hlt'
    · exact String.lt_irrefl _ (heq' ▸ hlt)
  · rcases h' with hlt' | ⟨-, hid'⟩
    · exact String.lt_irrefl _ (heq ▸ hlt')
    · exact String.lt_asymm hid hid'

theorem newer_of_before (h : a.before b) (hid : a.id ≠ b.id) : a.newer b := by
  rw [before_iff] at h
  rw [newer_iff]
  refine h.imp_right (And.imp_right fun hle => ?_)
  exact String.not_le.1 fun hge => hid (String.le_antisymm hle hge)

end RunRow

namespace Tables

variable {rows : List RunRow} {fs : List FindingRow} {vs : List Int}

theorem insert_eq (locked : Bool) (r : Run) :
    (⟨some rows, some fs, vs⟩ : Tables).insert locked r =
      if locked then .error .locked
      else if rows.any (·.id == r.id) then .error .duplicateRun
      else .ok ⟨some (rows ++ [.ofRun r]), some (fs ++ findingRows r), vs⟩ := by
  cases locked with
  | true => rfl
  | false =>
    by_cases h : rows.any (·.id == r.id)
    · simp [insert, runTable, bind, Except.bind, h]
    · cases hfindings : r.findings with
      | nil => simp [insert, runTable, bind, Except.bind, h, hfindings, findingRows, pure, Except.pure]
      | cons x xs => simp [insert, runTable, findingTable, bind, Except.bind, h, hfindings, findingRows, pure, Except.pure]

def newest (rows : List RunRow) (project : String) (keep : Int) : List RunRow :=
  limited keep ((rows.filter (·.project == project)).mergeSort RunRow.before)

theorem perm_sorted (rows : List RunRow) (project : String) :
    ((rows.filter (·.project == project)).mergeSort RunRow.before).Perm (rows.filter (·.project == project)) :=
  List.mergeSort_perm _ _

/-- A row of a project is kept if fewer of the project are newer than are to be kept. -/
theorem mem_newest_iff (hdistinct : (rows.map (·.id)).Nodup) {project : String} {x : RunRow} (hx : x ∈ rows)
    (hproject : x.project = project) (keep : Int) :
    x ∈ newest rows project keep ↔
      keep < 0 ∨ (rows.countP fun y => y.project == project && y.newer x) < keep := by
  have hmem : x ∈ (rows.filter (·.project == project)).mergeSort RunRow.before := by
    simp [hx, hproject]
  unfold newest limited
  by_cases hkeep : keep < 0
  · simp [hkeep, hmem]
  · have hids : (((rows.filter (·.project == project)).mergeSort RunRow.before).map (·.id)).Nodup := by
      rw [((perm_sorted rows project).map (·.id)).nodup_iff]
      exact hdistinct.sublist (List.filter_sublist.map _)
    have hsorted : ((rows.filter (·.project == project)).mergeSort RunRow.before).Pairwise fun a b => a.newer b := by
      have hbefore : ((rows.filter (·.project == project)).mergeSort RunRow.before).Pairwise fun a b => a.before b :=
        List.pairwise_mergeSort RunRow.before_trans RunRow.before_total _
      refine (hbefore.and (List.pairwise_map.1 hids)).imp ?_
      rintro a b ⟨hab, hid⟩
      exact RunRow.newer_of_before hab hid
    rw [if_neg hkeep, mem_take_iff_countP hsorted (fun a b => RunRow.newer_asymm) hmem,
      (perm_sorted rows project).countP_eq, List.countP_filter]
    have hcomm : rows.countP (fun y => y.newer x && y.project == project) =
        rows.countP fun y => y.project == project && y.newer x := by
      simp only [Bool.and_comm]
    rw [hcomm]
    omega

theorem mem_of_mem_newest {project : String} {keep : Int} {x : RunRow} (h : x ∈ newest rows project keep) :
    x ∈ rows ∧ x.project = project := by
  unfold newest limited at h
  have hsorted : x ∈ (rows.filter (·.project == project)).mergeSort RunRow.before := by
    split at h
    · exact h
    · exact List.mem_of_mem_take h
  simpa using hsorted

theorem id_mem_iff (hdistinct : (rows.map (·.id)).Nodup) {l : List RunRow} (hsub : ∀ y ∈ l, y ∈ rows) {x : RunRow}
    (hx : x ∈ rows) : x.id ∈ l.map (·.id) ↔ x ∈ l := by
  constructor
  · intro hid
    obtain ⟨y, hy, hyx⟩ := List.mem_map.1 hid
    have hsame : y = x := List.inj_on_of_nodup_map hdistinct (hsub y hy) hx hyx
    exact hsame ▸ hy
  · intro hmem
    exact List.mem_map_of_mem hmem

def isGone (rows : List RunRow) (project : String) (keep : Int) (x : RunRow) : Bool :=
  x.project == project && !((newest rows project keep).map (·.id)).contains x.id

def gone (rows : List RunRow) (project : String) (keep : Int) : List String :=
  (rows.filter (isGone rows project keep)).map (·.id)

theorem isGone_iff (hdistinct : (rows.map (·.id)).Nodup) {x : RunRow} (hx : x ∈ rows) (project : String) (keep : Int) :
    isGone rows project keep x ↔
      x.project = project ∧ 0 ≤ keep ∧ keep ≤ rows.countP fun y => y.project == project && y.newer x := by
  have hid := id_mem_iff (l := newest rows project keep) hdistinct (fun y hy => (mem_of_mem_newest hy).1) hx
  unfold isGone
  rw [Bool.and_eq_true, beq_iff_eq, Bool.not_eq_true', ← Bool.not_eq_true, List.contains_iff_mem, hid]
  refine and_congr_right fun hproject => ?_
  rw [mem_newest_iff hdistinct hx hproject]
  omega

theorem contains_gone (hdistinct : (rows.map (·.id)).Nodup) {x : RunRow} (hx : x ∈ rows) (project : String) (keep : Int) :
    (gone rows project keep).contains x.id = isGone rows project keep x := by
  have hid := id_mem_iff (l := rows.filter (isGone rows project keep)) hdistinct (fun y hy => (List.mem_filter.1 hy).1) hx
  rw [Bool.eq_iff_iff, List.contains_iff_mem, gone, hid, List.mem_filter]
  exact and_iff_right hx

theorem prune_eq (project : String) (keep : Int) (locked : Bool) :
    (⟨some rows, some fs, vs⟩ : Tables).prune locked project keep =
      if locked then .error .locked
      else .ok ((gone rows project keep).length,
        ⟨some (rows.filter (!isGone rows project keep ·)),
          some (fs.filter fun x => !(gone rows project keep).contains x.run), vs⟩) := by
  cases locked with
  | true => rfl
  | false => rfl

end Tables

end JvmLint
