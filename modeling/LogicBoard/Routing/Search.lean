/-
  LogicBoard.Routing.Search
  ────────────────────────────────
  **CHEAPEST PATHS ON A GRID OF COSTS.**

  A path moves from cell to neighbouring cell.  Entering a cell costs one and
  the cost of the cell; cells at or above a limit cannot be entered.  For
  every cell it has reached, the search knows the cheapest way so far and the
  cell before it.  It keeps a queue of trails and always extends the one that
  looks cheapest: its cost so far and the distance from its end to the goal.
  A trail is left alone if its cell was reached more cheaply since.

  The distance never overstates what is left, and it shrinks by at most one
  per step, so a cell whose trail is taken from the queue has been reached in
  the cheapest way.
-/
import LogicBoard.Routing.Grid
import LogicBoard.Routing.Heap

namespace LogicBoard

/-! ## §1. Trails and visits. -/

/-- A way from the start to some cell that waits to be extended. -/
structure Trail where
  /-- The cost so far and the distance to the goal. -/
  estimate : Nat
  /-- The cost so far. -/
  cost : Nat
  /-- The cell reached. -/
  cell : Vec
deriving DecidableEq

/-- Does the second trail have priority, or are both alike?  The smaller estimate has priority,
then the higher cost. -/
def Trail.le (a b : Trail) : Bool :=
  b.estimate < a.estimate || (a.estimate = b.estimate && a.cost ≤ b.cost)

/-- The cheapest way to a cell so far. -/
structure Visit where
  cost : Nat
  /-- The cell before it, unless it is the start. -/
  previous : Option Vec
deriving DecidableEq

/-- What is known of the cells of a grid; there is no visit to a cell that was not reached.  Visits
are kept by row and column, so no two cells share one. -/
abbrev Visits := Grid (Option Visit)

namespace Visits

/-- The visit to a cell. -/
def visit? (v : Visits) (cell : Vec) : Option Visit :=
  if v.covers cell then (v.value? cell.y.toNat cell.x.toNat).join else none

/-- Takes note of a visit to a cell. -/
def put (v : Visits) (cell : Vec) (visit : Visit) : Visits :=
  if v.covers cell then v.change cell.y.toNat cell.x.toNat fun _ => some visit else v

/-- The cells from the start to a cell, put before a path.  Costs shrink on the way back, so that
more steps than the cost of the cell are never needed. -/
def trace (v : Visits) : Nat → Vec → List Vec → List Vec
  | 0, _, path => path
  | steps + 1, cell, path =>
    match (v.visit? cell).bind (·.previous) with
    | none => cell :: path
    | some before => v.trace steps before (cell :: path)

end Visits

/-! ## §2. The search. -/

/-- The trails to extend and what is known of the cells. -/
structure Search where
  queue : Array Trail
  visits : Visits

namespace Search

/-- The ways out of a cell: up, right, down and left. -/
def ways : List Vec := [⟨0, -1⟩, ⟨1, 0⟩, ⟨0, 1⟩, ⟨-1, 0⟩]

/-- The cost of a cell that can be entered. -/
def entryCost? (costs : Grid Nat) (limit : Nat) (cell : Vec) : Option Nat :=
  (costs.get? cell).filter (· < limit)

/-- Takes note of a way to a cell, and queues its trail, if it is the first or the cheapest. -/
def reach (goal : Vec) (s : Search) (cell : Vec) (visit : Visit) : Search :=
  match s with
  | ⟨queue, visits⟩ =>
    if (visits.visit? cell).all (visit.cost < ·.cost) then
      ⟨Heap.push Trail.le queue ⟨visit.cost + cell.manhattan goal, visit.cost, cell⟩,
        visits.put cell visit⟩
    else ⟨queue, visits⟩

/-- Extends a trail by one step. -/
def advance (costs : Grid Nat) (limit : Nat) (goal : Vec) (t : Trail) (s : Search) (way : Vec) :
    Search :=
  let cell := t.cell + way
  match entryCost? costs limit cell with
  | none => s
  | some c => s.reach goal cell ⟨t.cost + (1 + c), some t.cell⟩

/-- Takes trails from the queue and extends them until one ends at the goal. -/
def run (costs : Grid Nat) (limit : Nat) (goal : Vec) : Nat → Search → Option (List Vec)
  | 0, _ => none
  | fuel + 1, ⟨queue, visits⟩ =>
    match Heap.pop? Trail.le queue with
    | none => none
    | some (t, queue) =>
      if t.cell = goal then some (visits.trace (t.cost + 1) t.cell [])
      else if (visits.visit? t.cell).any (·.cost < t.cost) then
        run costs limit goal fuel ⟨queue, visits⟩
      else
        run costs limit goal fuel (ways.foldl (advance costs limit goal t) ⟨queue, visits⟩)

/-- The state of a search that has only reached its start. -/
def start (costs : Grid Nat) (cell : Vec) : Search :=
  ⟨#[⟨0, 0, cell⟩], Visits.put (.ofSize costs.width costs.height none) cell ⟨0, none⟩⟩

end Search

/-- A cheapest path from one cell to another, with both ends.  The first cell may have any cost.
Every cell is extended at most once and each neighbour queues it at most once, which bounds the
trails ever queued. -/
def cheapestPath? (costs : Grid Nat) (limit : Nat) (source goal : Vec) : Option (List Vec) :=
  if costs.contains source && (Search.entryCost? costs limit goal).isSome then
    Search.run costs limit goal (4 * (costs.width * costs.height) + 2) (.start costs source)
  else none

end LogicBoard
