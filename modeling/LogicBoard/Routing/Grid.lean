/-
  LogicBoard.Routing.Grid
  ────────────────────────────────
  **VALUES ON A RECTANGLE OF CELLS.**

  A grid holds one value per cell, row by row from the top left corner.  The
  rows are counted one behind the other, and a cell is known by the place at
  which it is counted.  Places are numbers of 32 bits: on a grid with more
  cells than such numbers can count, counting wraps around, so that some
  cells have no place and others share one.  Cells beyond the edges have no
  place either, and setting one changes nothing.
-/
import LogicBoard.Geometry.Vec

namespace LogicBoard

universe u

/-- One value for each cell of a rectangle. -/
structure Grid (α : Type u) where
  width : Nat
  height : Nat
  /-- The rows. -/
  cells : Vector (Vector α width) height

namespace Grid

variable {α : Type u}

/-! ## §1. Rows and columns. -/

/-- Every cell of the grid has the same value. -/
def ofSize (width height : Nat) (a : α) : Grid α :=
  ⟨width, height, .replicate height (.replicate width a)⟩

/-- The value in a row and a column. -/
def value? (g : Grid α) (row column : Nat) : Option α :=
  g.cells[row]?.bind (·[column]?)

/-- Changes one entry of a vector, if there is such an entry. -/
def changeEntry {n : Nat} (v : Vector α n) (i : Nat) (f : α → α) : Vector α n :=
  ⟨v.toArray.modify i f, by rw [Array.size_modify, v.size_toArray]⟩

/-- Changes the value in a row and a column. -/
def change (g : Grid α) (row column : Nat) (f : α → α) : Grid α :=
  match g with
  | ⟨width, height, cells⟩ =>
    ⟨width, height, changeEntry cells row (changeEntry · column f)⟩

/-- Is the cell in the rectangle? -/
def covers (g : Grid α) (p : Vec) : Bool :=
  (0 ≤ p.x && p.x < g.width) && (0 ≤ p.y && p.y < g.height)

/-! ## §2. Places. -/

/-- The place of a cell.  Counting wraps around to negative numbers, which are no places. -/
def place? (g : Grid α) (p : Vec) : Option Nat :=
  if g.covers p then (Int32.ofInt (p.y * g.width + p.x)).toInt.toNat? else none

/-- Does the cell have a place? -/
def contains (g : Grid α) (p : Vec) : Bool := (g.place? p).isSome

/-- The value at a place. -/
def at? (g : Grid α) (i : Nat) : Option α := g.value? (i / g.width) (i % g.width)

/-- The value of a cell; `none` without a place. -/
def get? (g : Grid α) (p : Vec) : Option α := (g.place? p).bind g.at?

/-- Changes the value of a cell. -/
def modify (g : Grid α) (p : Vec) (f : α → α) : Grid α :=
  match g.place? p with
  | none => g
  | some i => g.change (i / g.width) (i % g.width) f

/-- Sets the value of a cell. -/
def set (g : Grid α) (p : Vec) (a : α) : Grid α := g.modify p fun _ => a

/-- The values row by row. -/
def rows (g : Grid α) : List (List α) := g.cells.toList.map (·.toList)

end Grid

/-! ## §3. Costs as text. -/

/-- The character for a cost: a free cell, a small cost, or too much for a digit. -/
def costChar (cost : Nat) : Char :=
  if cost = 0 then '.' else if cost ≤ 9 then Nat.digitChar cost else '#'

/-- A grid of costs as text, one line per row. -/
def Grid.costText (g : Grid Nat) : String :=
  String.join (g.rows.map fun row => String.ofList (row.map costChar) ++ "\n")

end LogicBoard
