import JvmLint.Decimal.Fixed
import JvmLint.History.Trend
import JvmLint.Path
import JvmLint.Report.Basic

/-!
# The findings browser

Two panels, one with findings and one with the checks that reported them. A check can be chosen as a
filter for the findings. Later results replace the findings; a failed run leaves them as they are.
Each panel shows its items in a list, which is a component of its own.
-/

namespace JvmLint

structure Cursor where
  page : Nat := 0
  row : Nat := 0
  pageSize : Nat := 1
  pages : Nat := 1
deriving DecidableEq, Repr, Inhabited

namespace Cursor

def index (c : Cursor) : Nat := c.page * c.pageSize + c.row

def shown (c : Cursor) (count : Nat) : Nat := min (c.page * c.pageSize + c.pageSize) count - c.page * c.pageSize

/-- Lays pages out anew for so many items. The page stays within bounds; the row may not. -/
def layOut (c : Cursor) (pageSize count : Nat) : Cursor :=
  let pageSize := max 1 pageSize
  let pages := max 1 ((count + pageSize - 1) / pageSize)
  { page := min (c.index / pageSize) (pages - 1), row := c.index % pageSize, pageSize, pages }

def settle (c : Cursor) (count : Nat) : Cursor := if c.shown count ≤ c.row then { c with row := c.shown count - 1 } else c

def up (c : Cursor) (count : Nat) : Cursor :=
  if 0 < c.row then { c with row := c.row - 1 }
  else if c.page = 0 then c
  else
    let c := { c with page := c.page - 1 }
    { c with row := c.shown count - 1 }

def down (c : Cursor) (count : Nat) : Cursor :=
  let shown := c.shown count
  if c.row + 1 < shown then { c with row := c.row + 1 }
  else if c.page + 1 ≠ c.pages then { c with page := c.page + 1, row := 0 }
  else if shown < c.row + 1 then { c with row := 0 }
  else { c with row := shown - 1 }

def select (c : Cursor) (n : Nat) : Cursor := { c with page := n / c.pageSize, row := n % c.pageSize }

end Cursor

/-- A line of a panel: what it shows, and the check it stands for. -/
structure BrowserItem where
  title : String
  detail : String
  check : String
deriving DecidableEq, Repr, Inhabited

inductive BrowserKey where
  | tab | escape | enter | up | down | interrupt
  /-- Any other key, by what it is called. -/
  | text (s : String)
deriving DecidableEq, Repr, Inhabited

inductive BrowserEvent where
  | result (classes : Int) (findings : List Finding) (failures : Nat) (changed : List String)
  | failure (message : String) (changed : List String)
  | key (k : BrowserKey)
  | resize (width height : Int)

/-! ## Lists -/

/-- What the browser asks of a component that shows items and lets one be chosen. -/
class ListWidget (σ : Type) where
  /-- Without items and without room. -/
  new : σ
  setItems : σ → List BrowserItem → σ
  setSize : σ → Int → Int → σ
  /-- Chooses an item by its number. -/
  select : σ → Nat → σ
  /-- Whether a text to search for is being typed, which takes all keys. -/
  typing : σ → Bool
  /-- The number of the chosen item. -/
  index : σ → Nat
  /-- The chosen item. -/
  selected? : σ → Option BrowserItem
  /-- Sees an event; says whether it asks to quit. -/
  see : σ → BrowserEvent → σ × Bool

structure ItemList (σ : Type) where
  widget : σ
  items : List BrowserItem
deriving DecidableEq, Repr

namespace ItemList
variable {σ : Type} [ListWidget σ]

def new : ItemList σ := { widget := ListWidget.new, items := [] }

def give (l : ItemList σ) (items : List BrowserItem) : ItemList σ :=
  { widget := ListWidget.setItems l.widget items, items }

def resize (l : ItemList σ) (width height : Int) : ItemList σ :=
  { l with widget := ListWidget.setSize l.widget width height }

def select (l : ItemList σ) (n : Nat) : ItemList σ := { l with widget := ListWidget.select l.widget n }

def typing (l : ItemList σ) : Bool := ListWidget.typing l.widget

def index (l : ItemList σ) : Nat := ListWidget.index l.widget

def selected? (l : ItemList σ) : Option BrowserItem := ListWidget.selected? l.widget

def see (l : ItemList σ) (e : BrowserEvent) : ItemList σ × Bool :=
  let (widget, quit) := ListWidget.see l.widget e
  ({ l with widget }, quit)

end ItemList

/-- A list that shows its items page by page and has no search. -/
structure Pager where
  items : List BrowserItem := []
  cursor : Cursor := {}
deriving DecidableEq, Repr, Inhabited

namespace Pager

/-- How many items, of three lines each, there is room for. A heading without room for a letter takes
one line less. -/
def pageSize (width height : Int) : Nat :=
  let heading : Int := if width ≤ 0 then 1 else 2
  ((height - heading - 3) / 3).toNat

/-- Whatever it sees brings the choice within bounds, unless it asks to quit. -/
def see (p : Pager) (e : BrowserEvent) : Pager × Bool :=
  let count := p.items.length
  match e with
  | .key .escape => (p, true)
  | .key .up => ({ p with cursor := (if count = 0 then p.cursor else p.cursor.up count).settle count }, false)
  | .key .down => ({ p with cursor := (if count = 0 then p.cursor else p.cursor.down count).settle count }, false)
  | _ => ({ p with cursor := p.cursor.settle count }, false)

instance : ListWidget Pager where
  new := {}
  setItems p items := { items, cursor := p.cursor.layOut p.cursor.pageSize items.length }
  setSize p width height := { p with cursor := p.cursor.layOut (pageSize width height) p.items.length }
  select p n := { p with cursor := p.cursor.select n }
  typing _ := false
  index p := p.cursor.index
  selected? p := p.items[p.cursor.index]?
  see := see

end Pager

/-! ## The browser -/

inductive Panel where
  | findings | checks
deriving DecidableEq, Repr, Inhabited

structure Browser (σ : Type) where
  panel : Panel := .findings
  findingList : ItemList σ
  checkList : ItemList σ
  findings : List Finding := []
  counts : List CheckCount := []
  /-- The check whose findings are shown; empty shows all. -/
  filter : String := ""
  heading : String := "Findings"
  trend : Option Trend := none
  showTrend : Bool := false
  classes : Int := 0
  failures : Nat := 0
  changed : List String := []
  failed : Option String := none
  updated : Timestamp := .zero

namespace Browser
variable {σ : Type}

def findingItem (f : Finding) : BrowserItem :=
  { title := f.checkName, detail := f.location ++ ": " ++ f.message, check := f.checkName }

def checkItem (c : CheckCount) : BrowserItem :=
  { title := c.name, detail := c.category.name ++ " | " ++ toString c.count ++ " findings", check := c.name }

def visible (b : Browser σ) : List Finding :=
  b.findings.filter fun f => b.filter = "" || f.checkName = b.filter

section
variable [ListWidget σ]

/-- Before the first result. -/
def start (trend : Option Trend) (now : Timestamp) : Browser σ :=
  { findingList := .new, checkList := .new, trend, updated := now }

def refresh (b : Browser σ) : Browser σ :=
  { b with
    findingList := b.findingList.give (b.visible.map findingItem)
    heading := if b.filter = "" then "Findings" else "Findings: " ++ b.filter
    checkList := b.checkList.give (b.counts.map checkItem) }

def active (b : Browser σ) : ItemList σ := if b.panel = .checks then b.checkList else b.findingList

def passOn (b : Browser σ) (e : BrowserEvent) : Browser σ × Bool :=
  let (l, quit) := b.active.see e
  (if b.panel = .checks then { b with checkList := l } else { b with findingList := l }, quit)

def enter (b : Browser σ) : Browser σ :=
  match b.checkList.selected? with
  | none => b
  | some i =>
    let b := ({ b with filter := i.check, panel := .findings } : Browser σ).refresh
    { b with findingList := b.findingList.select 0 }

/-- Handles a key; says whether it asks to quit. -/
def press (b : Browser σ) (k : BrowserKey) : Browser σ × Bool :=
  if b.active.typing then b.passOn (.key k)
  else if k = .interrupt || k = .text "q" then (b, true)
  else if k = .tab then ({ b with panel := if b.panel = .findings then .checks else .findings }, false)
  else if k = .text "t" then ({ b with showTrend := !b.showTrend }, false)
  else if k = .escape && b.filter != "" then (({ b with filter := "" } : Browser σ).refresh, false)
  else if k = .enter && b.panel = .checks then (b.enter, false)
  else b.passOn (.key k)

/-- Handles an event at a moment; says whether it asks to quit. -/
def update (b : Browser σ) (now : Timestamp) (e : BrowserEvent) : Browser σ × Bool :=
  match e with
  | .key k => b.press k
  | .resize width height =>
    -- what stands around the lists takes four columns and ten lines
    let width := width - 4
    let height := max 5 (height - 10)
    ({ b with
      findingList := b.findingList.resize width height
      checkList := b.checkList.resize width height } : Browser σ).passOn e
  | .failure message changed => ({ b with updated := now, changed, failed := some message }, false)
  | .result classes findings failures changed =>
    let counts := checkCounts findings
    let filter := if counts.any (·.name == b.filter) then b.filter else ""
    ({ b with
      findings, counts, filter, classes, failures, changed, failed := none, updated := now } : Browser σ).refresh.passOn e

def details (b : Browser σ) : String :=
  match b.counts with
  | [] => "No checks reported findings."
  | first :: _ =>
    let c := (b.counts[b.checkList.index]?).getD first
    "\n".intercalate ["Selected Check", "  Name: " ++ c.name, "  Category: " ++ c.category.name,
      "  Findings: " ++ toString c.count, "  Press enter to list its findings."]

end

/-- A text as a style renders it: tabs are four blanks, and all lines are as long as the longest. -/
def styled (s : String) : String :=
  let lines := (Text.splitOn (Text.replace s '\t' "    ") '\n').map fun l => (Text.dropEnd? l "\r").getD l
  let width := (lines.map String.length).foldl max 0
  match lines with
  | [l] => l
  | _ => "\n".intercalate (lines.map fun l => l ++ String.ofList (List.replicate (width - l.length) ' '))

def help (b : Browser σ) : String :=
  if b.panel = .findings then "Keys: tab panel | / filter | esc clear check filter | t trend overlay | q quit"
  else "Keys: tab panel | / filter | enter show findings | t trend overlay | q quit"

def signed (n : Int) : String := if n < 0 then toString n else "+" ++ toString n

def overlay (b : Browser σ) : String :=
  match b.trend.bind fun t => t.points.getLast?.map fun p => (t, p) with
  | none => "Trend overlay unavailable (run with --save to record history)."
  | some (t, p) => "\n".intercalate ["Trend Overlay",
      "  Runs: " ++ toString t.points.length ++ " | Latest: " ++ p.run.timestamp.dateTimeText,
      "  Findings: " ++ toString p.run.findingCount ++ " (" ++ signed p.delta ++ ")",
      "  Findings per class: " ++ Decimal.fixed 2 p.perClass ++ " over " ++ toString p.run.classes ++ " classes"]

def footer (b : Browser σ) : String :=
  match b.failed with
  | some message => styled ("Analysis failed: " ++ message)
  | none =>
    let names := b.changed.map Path.base
    let more := if 5 < names.length then ["... " ++ toString (names.length - 5) ++ " more"] else []
    if names.isEmpty then "" else styled ("Changed: " ++ ", ".intercalate (names.take 5 ++ more))

def summary (b : Browser σ) : String :=
  if b.findings.isEmpty then "No findings"
  else
    let principles := (b.findings.filter (·.category == .principle)).length
    toString principles ++ " principle | " ++ toString (b.findings.length - principles) ++ " pattern/style"

/-- The first lines of the screen. -/
def header (b : Browser σ) : List String :=
  ["", "    Class Analysis Monitor",
    "  Last update: " ++ b.updated.clock ++ " | " ++ toString b.classes ++ " classes | " ++ toString b.failures ++
      " load failures | " ++ b.summary,
    "", "  " ++ b.help]

end Browser

end JvmLint
