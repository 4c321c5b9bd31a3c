import Mathlib.Algebra.GroupWithZero.Nat
import Mathlib.Data.List.Forall2
import Mathlib.Data.List.MinMax
import Mathlib.Order.Nat
import ViewRouting.Router.Table

/-! Columns of a listing. The width of a column is the width of the widest text in it, so that every
cell can be filled up to it and none is cut. All rows then have the same widths, and every column
starts at one place in all of them. Widths are counted in units, as are the places. -/

namespace ViewRouting

theorem Text.join_place (separator : String) (front : List String) (p : String)
    (back : List String) :
    ∃ before after, join separator (front ++ p :: back) = before ++ p ++ after ∧
      width before = (front.map fun q => width q + width separator).sum := by
  induction front with
  | nil =>
    cases back with
    | nil => exact ⟨"", "", by simp [join], rfl⟩
    | cons q back =>
      refine ⟨"", separator ++ join separator (q :: back), ?_, rfl⟩
      rw [List.nil_append, join, String.intercalate_cons_cons, ← join, String.empty_append,
        String.append_assoc]
  | cons q front ih =>
    obtain ⟨before, after, whole, wide⟩ := ih
    refine ⟨q ++ separator ++ before, after, ?_, by simp [wide, Nat.add_assoc]⟩
    obtain ⟨next, rest, same⟩ := List.exists_cons_of_ne_nil (l := front ++ p :: back) (by simp)
    rw [List.cons_append, same, join, String.intercalate_cons_cons, ← join, ← same, whole]
    simp only [String.append_assoc]

namespace Router

inductive Column where
  | helper
  | verb
  | path
  | handler
  deriving DecidableEq, Repr

namespace Column

def text : Column → Row → String
  | helper => Row.helper
  | verb => Row.verb
  | path => Row.path
  | handler => Row.handler

def width (w : Widths) : Column → Nat
  | helper => w.helper
  | verb => w.verb
  | path => w.path
  | handler => w.handler

def before : Column → List Column
  | helper => []
  | verb => [helper]
  | path => [helper, verb]
  | handler => [helper, verb, path]

def behind : Column → List Column
  | helper => [verb, path, handler]
  | verb => [path, handler]
  | path => [handler]
  | handler => []

/-- Where a column starts: two spaces stand behind each column to its left. -/
def offset (w : Widths) (c : Column) : Nat :=
  (c.before.map fun left => left.width w + 2).sum

def cell (w : Widths) (r : Row) : Column → String
  | helper => Text.padLeft w.helper r.helper
  | verb => Text.padRight w.verb r.verb
  | path => Text.padRight w.path r.path
  | handler => Text.padRight w.handler r.handler

theorem width_cell {w : Widths} {r : Row} {c : Column} (fits : Text.width (c.text r) ≤ c.width w) :
    Text.width (c.cell w r) = c.width w := by
  cases c with
  | helper => exact Text.width_padLeft fits
  | verb | path | handler => exact Text.width_padRight fits

theorem width_ofRows (c : Column) (rows : List Row) :
    c.width (Widths.ofRows rows) = columnWidth c.text rows := by
  cases c <;> rfl

end Column

/-! The widest text of a column. -/

theorem le_columnWidth (column : Row → String) {rows : List Row} {r : Row} (member : r ∈ rows) :
    Text.width (column r) ≤ columnWidth column rows := by
  have text : Text.width (column r) ∈ rows.map fun r => Text.width (column r) :=
    List.mem_map_of_mem member
  exact List.le_max_of_le text le_rfl

theorem columnWidth_filled (column : Row → String) {rows : List Row} (some : rows ≠ []) :
    ∃ r ∈ rows, Text.width (column r) = columnWidth column rows := by
  have texts : (rows.map fun r => Text.width (column r)) ≠ [] := by simpa using some
  exact List.mem_map.mp (List.maximum_mem (List.foldr_max_of_ne_nil texts).symm)

/-! A row in its columns. -/

/-- A line shows the cells of a row, each as wide as its column and in its place, and behind them
the action. The helper is filled up from the left, the other texts from the right. -/
structure Aligned (w : Widths) (r : Row) (line : String) (cell : Column → String) : Prop where
  whole : line = cell .helper ++ "  " ++ cell .verb ++ "  " ++ cell .path ++ "  "
    ++ cell .handler ++ "  " ++ r.action
  width : ∀ c, Text.width (cell c) = c.width w
  place : ∀ c, ∃ before after, line = before ++ cell c ++ after ∧ Text.width before = c.offset w
  helper : ∃ n, cell .helper = Text.spaces n ++ r.helper
  others : ∀ c ≠ .helper, ∃ n, cell c = c.text r ++ Text.spaces n

theorem line_aligned {w : Widths} {r : Row}
    (fits : ∀ c : Column, Text.width (c.text r) ≤ c.width w) :
    Aligned w r (r.line w) (Column.cell w r) := by
  have wide (c : Column) := Column.width_cell (fits c)
  let cell := Column.cell w r
  have line : r.line w = Text.join "  " [cell .helper, cell .verb, cell .path, cell .handler,
      r.action] := rfl
  have gap : Text.width "  " = 2 := by decide
  constructor
  case whole => simp [line, Text.join, cell, String.append_assoc]
  case width => exact wide
  case place =>
    intro c
    have parted : [cell .helper, cell .verb, cell .path, cell .handler, r.action] =
        c.before.map cell ++ cell c :: (c.behind.map cell ++ [r.action]) := by
      cases c <;> rfl
    have place := Text.join_place "  " (c.before.map cell) (cell c)
      (c.behind.map cell ++ [r.action])
    rw [line, parted]
    simpa [Column.offset, cell, wide, gap, Function.comp_def] using place
  case helper => exact ⟨_, rfl⟩
  case others =>
    intro c other
    cases c with
    | helper => exact absurd rfl other
    | verb | path | handler => exact ⟨_, rfl⟩

/-- A listing has one line to a route, in the order of the table, and every column is as wide as
the widest text in it. -/
structure Listed (t : Table) (w : Widths) (lines : List String) : Prop where
  whole : t.listing = Text.join "\n" lines
  rows : List.Forall₂ (fun e line => ∃ cell, Aligned w (Row.ofEntry e) line cell) t.routes lines
  filled : ∀ c : Column, ∃ e ∈ t.routes, Text.width (c.text (Row.ofEntry e)) = c.width w

/-- The listing of a table with routes is aligned in columns that are no wider than they have to
be, whatever the texts are. -/
theorem listing_aligned {t : Table} (some : t.routes ≠ []) : ∃ w lines, Listed t w lines := by
  let rows := t.routes.map Row.ofEntry
  have width (c : Column) := c.width_ofRows rows
  refine ⟨Widths.ofRows rows, rows.map (Row.line (Widths.ofRows rows)), rfl, ?_, ?_⟩
  · rw [List.map_map, List.forall₂_map_right_iff, List.forall₂_same]
    intro e member
    refine ⟨_, line_aligned fun c => ?_⟩
    rw [width]
    exact le_columnWidth c.text (List.mem_map_of_mem member)
  · intro c
    have some : rows ≠ [] := by simpa [rows] using some
    obtain ⟨_, row, wide⟩ := columnWidth_filled c.text some
    obtain ⟨e, member, rfl⟩ := List.mem_map.mp row
    exact ⟨e, member, wide.trans (width c).symm⟩

theorem listing_aligned_wide :
    let route (verb path handler action helper : String) : Entry :=
      ⟨verb, path, handler, action, .string helper, [], [], []⟩
    let t : Table := ⟨"App.Router", [route "GET" "/" "PageController" "index" "page",
      route "POST" "/😀" "FileController" "create" "files"]⟩
    t.routes ≠ [] ∧ (∃ w lines, Listed t w lines) ∧
      t.listing = " page_path  GET   /    PageController  index\n" ++
        "files_path  POST  /😀  FileController  create" := by
  intro route t
  have some : t.routes ≠ [] := List.cons_ne_nil _ _
  exact ⟨some, listing_aligned some, by decide +kernel⟩

end Router

end ViewRouting
