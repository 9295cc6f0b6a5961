import JvmLint.Browser
import JvmLint.Proofs.CountedFindings

/-!
# What the browser shows

The filter, the tallies and the items of the two lists are kept apart and are
changed by different events. After every event they again fit the findings of the
last successful run: the filter names a check that reported something, and the
findings that are listed are those that pass it. All that is assumed of a list is
that nothing can be chosen from it but what it was given last.
-/

namespace JvmLint

theorem name_mem_checkCounts {fs : List Finding} {n : String} :
    (∃ c ∈ checkCounts fs, c.name = n) ↔ ∃ f ∈ fs, f.checkName = n := by
  simp [checkCounts_eq, entryOf, mem_dedup]

/-! ## Lists -/

section
variable {σ : Type} [ListWidget σ]

inductive ItemList.Reached : ItemList σ → Prop
  | new : Reached .new
  | give {l : ItemList σ} (h : Reached l) (items : List BrowserItem) : Reached (l.give items)
  | resize {l : ItemList σ} (h : Reached l) (width height : Int) : Reached (l.resize width height)
  | select {l : ItemList σ} (h : Reached l) (n : Nat) : Reached (l.select n)
  | see {l : ItemList σ} (h : Reached l) (e : BrowserEvent) : Reached (l.see e).1

variable (σ) in
/-- Nothing can be chosen from a list but an item that it was given last. -/
def ListWidget.Honest : Prop := ∀ l : ItemList σ, l.Reached → ∀ i, l.selected? = some i → i ∈ l.items

end

theorem Pager.items_see (p : Pager) (e : BrowserEvent) : (p.see e).1.items = p.items := by
  unfold see
  dsimp only
  split <;> rfl

theorem Pager.items_reached {l : ItemList Pager} (h : l.Reached) : l.widget.items = l.items := by
  induction h with
  | new => rfl
  | give => rfl
  | resize h _ _ ih => exact ih
  | select h _ ih => exact ih
  | see h e ih => exact (Pager.items_see _ e).trans ih

theorem Pager.honest : ListWidget.Honest Pager := by
  intro l hl i hi
  rw [← Pager.items_reached hl]
  exact List.mem_of_getElem? hi

/-! ## Steps -/

structure Tidings where
  classes : Int := 0
  findings : List Finding := []
  failures : Nat := 0

def BrowserEvent.tidings? : BrowserEvent → Option Tidings
  | result classes findings failures _ => some { classes, findings, failures }
  | _ => none

namespace Browser
variable {σ : Type} [ListWidget σ] {b : Browser σ} {t : Tidings}

def tidings (b : Browser σ) : Tidings := { classes := b.classes, findings := b.findings, failures := b.failures }

/-- What is shown fits the tidings. -/
structure Current (t : Tidings) (b : Browser σ) : Prop where
  tidings : b.tidings = t
  filter : b.filter = "" ∨ ∃ f ∈ b.findings, f.checkName = b.filter
  counts : b.counts = checkCounts b.findings
  items : b.findingList.items = b.visible.map findingItem
  checkItems : b.checkList.items = b.counts.map checkItem
  reached : b.checkList.Reached

theorem current_start (trend : Option Trend) (now : Timestamp) : Current {} (start trend now : Browser σ) :=
  ⟨rfl, .inl rfl, by simp [start, checkCounts], rfl, rfl, .new⟩

/-- Handing the lists their items restores what a new filter or new findings have upset. -/
theorem current_refresh (htidings : b.tidings = t) (hfilter : b.filter = "" ∨ ∃ f ∈ b.findings, f.checkName = b.filter)
    (hcounts : b.counts = checkCounts b.findings) (hreached : b.checkList.Reached) : Current t b.refresh :=
  ⟨htidings, hfilter, hcounts, rfl, rfl, hreached.give _⟩

theorem Current.passOn (h : Current t b) (e : BrowserEvent) : Current t (b.passOn e).1 := by
  unfold Browser.passOn
  by_cases hpanel : b.panel = .checks
  · simp only [active, hpanel, if_true]
    exact { h with reached := h.reached.see e }
  · simp only [active, hpanel, if_false]
    exact { h with }

theorem Current.enter (honest : ListWidget.Honest σ) (h : Current t b) : Current t b.enter := by
  unfold Browser.enter
  cases hchosen : b.checkList.selected? with
  | none => exact h
  | some i =>
    have hi : i ∈ b.counts.map checkItem := h.checkItems ▸ honest b.checkList h.reached i hchosen
    obtain ⟨c, hc, rfl⟩ := List.mem_map.mp hi
    rw [h.counts] at hc
    have hnamed : ∃ f ∈ b.findings, f.checkName = c.name := name_mem_checkCounts.mp ⟨c, hc, rfl⟩
    have hshown : Current t ({ b with filter := c.name, panel := .findings } : Browser σ).refresh :=
      current_refresh h.tidings (.inr hnamed) h.counts h.reached
    exact { hshown with }

theorem Current.press (honest : ListWidget.Honest σ) (h : Current t b) (k : BrowserKey) : Current t (b.press k).1 := by
  unfold Browser.press
  split
  · exact h.passOn _
  split
  · exact h
  split
  · exact { h with }
  split
  · exact { h with }
  split
  · exact current_refresh h.tidings (.inl rfl) h.counts h.reached
  split
  · exact h.enter honest
  · exact h.passOn _

theorem Current.update (honest : ListWidget.Honest σ) (h : Current t b) (now : Timestamp) (e : BrowserEvent) :
    Current (e.tidings?.getD t) (b.update now e).1 := by
  cases e with
  | key k => exact h.press honest k
  | resize width height =>
    apply Current.passOn
    exact { h with reached := h.reached.resize _ _ }
  | failure message changed => exact { h with }
  | result classes findings failures changed =>
    apply Current.passOn
    apply current_refresh
    case htidings => rfl
    case hcounts => rfl
    case hreached => exact h.reached
    case hfilter =>
      -- a check that reports nothing any more is dropped as a filter
      by_cases hkept : (checkCounts findings).any (·.name == b.filter) = true
      · obtain ⟨c, hc, hname⟩ := List.any_eq_true.mp hkept
        simp only [hkept, if_true]
        exact .inr (name_mem_checkCounts.mp ⟨c, hc, eq_of_beq hname⟩)
      · simp [hkept]

/-! ## Runs -/

def run (b : Browser σ) (events : List (Timestamp × BrowserEvent)) : Browser σ :=
  events.foldl (fun b e => (b.update e.1 e.2).1) b

def latest (t : Tidings) (events : List (Timestamp × BrowserEvent)) : Tidings :=
  (events.filterMap (·.2.tidings?)).getLast?.getD t

theorem latest_cons (t : Tidings) (e : Timestamp × BrowserEvent) (events : List (Timestamp × BrowserEvent)) :
    latest t (e :: events) = latest (e.2.tidings?.getD t) events := by
  unfold latest
  cases he : e.2.tidings? with
  | none => simp [he]
  | some t' => simp [he, List.getLast?_cons]

theorem Current.run (honest : ListWidget.Honest σ) (h : Current t b) (events : List (Timestamp × BrowserEvent)) :
    Current (latest t events) (b.run events) := by
  induction events generalizing b t with
  | nil => exact h
  | cons e events ih =>
    rw [latest_cons]
    exact ih (h.update honest e.1 e.2)

/-- Whatever happens to a browser, it has the findings and the counts of the last successful run, its tallies
are of these findings, its filter is empty or names a check that reported one of them, and its lists were last
given the tallies and the findings that pass the filter. A failed run changes none of this, nor the panel. -/
theorem shown_of_run (honest : ListWidget.Honest σ) (trend : Option Trend) (opened : Timestamp)
    (events : List (Timestamp × BrowserEvent)) :
    let b : Browser σ := (start trend opened).run events
    b.tidings = latest {} events ∧
    (b.filter = "" ∨ ∃ f ∈ b.findings, f.checkName = b.filter) ∧
    b.counts = checkCounts b.findings ∧
    b.findingList.items = (b.findings.filter fun f => b.filter = "" || f.checkName = b.filter).map findingItem ∧
    b.checkList.items = b.counts.map checkItem ∧
    ∀ now message changed,
      let b' := (b.update now (.failure message changed)).1
      b'.findings = b.findings ∧ b'.counts = b.counts ∧ b'.classes = b.classes ∧ b'.failures = b.failures ∧
        b'.filter = b.filter ∧ b'.panel = b.panel ∧ b'.findingList = b.findingList ∧ b'.checkList = b.checkList := by
  intro b
  have h : Current (latest {} events) b := (current_start trend opened).run honest events
  refine ⟨h.tidings, h.filter, h.counts, h.items, h.checkItems, ?_⟩
  intro now message changed
  exact ⟨rfl, rfl, rfl, rfl, rfl, rfl, rfl, rfl⟩

def openField : Finding := ⟨"Encapsulation", .principle, "a.Order.total", "Field 'total' is not private"⟩

def idleField : Finding := ⟨"UnusedField", .style, "a.Order.note", "Field 'note' is never used"⟩

def chosenCheck : List (Timestamp × BrowserEvent) :=
  [(.zero, .result 1 [openField, idleField] 0 []), (.zero, .key .tab), (.zero, .key .down), (.zero, .key .enter)]

def mendedField : List (Timestamp × BrowserEvent) :=
  chosenCheck ++
    [(.zero, .failure "no such file" ["Order.class"]), (.zero, .result 1 [openField] 0 ["Order.class"])]

theorem shown_of_run_mendedField :
    ListWidget.Honest Pager ∧
    ((start none .zero : Browser Pager).run chosenCheck).filter = "UnusedField" ∧
    let b : Browser Pager := (start none .zero).run mendedField
    b.findings = [openField] ∧ b.counts = checkCounts [openField] ∧ b.findingList.items = [findingItem openField] := by
  have hchosen : ((start none .zero : Browser Pager).run chosenCheck).filter = "UnusedField" := by
    have hcounts : checkCounts [openField, idleField] =
        [{ name := "Encapsulation", category := .principle, count := 1 },
          { name := "UnusedField", category := .style, count := 1 }] := List.mergeSort_of_pairwise (by decide)
    simp only [run, chosenCheck, List.foldl_cons, List.foldl_nil, update, hcounts]
    rfl
  obtain ⟨htidings, hfilter, hcounts, hitems, -, -⟩ := shown_of_run Pager.honest none .zero mendedField
  have hfindings := congrArg Tidings.findings htidings
  have hlatest : (latest {} mendedField).findings = [openField] := rfl
  simp only [tidings, hlatest] at hfindings
  rw [hfindings] at hfilter hcounts hitems
  refine ⟨Pager.honest, hchosen, hfindings, hcounts, ?_⟩
  rw [hitems]
  rcases hfilter with hempty | ⟨f, hf, hname⟩
  · simp [hempty]
  · obtain rfl := List.mem_singleton.mp hf
    simp [hname]

end Browser

end JvmLint
