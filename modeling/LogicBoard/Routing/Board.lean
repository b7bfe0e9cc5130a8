/-
  LogicBoard.Routing.Board
  ────────────────────────────────
  **WHERE PINS ARE AND WHAT CELLS COST.**

  A board is the content of a chip type together with all that routing needs
  to know about it.  Pins of chips follow the chips' rotation.  The ports of
  the type itself sit on the edge of the board, inputs along the top and
  outputs along the bottom.  Wires end on the *stand-off* of a pin, the cell
  in front of it.
-/
import LogicBoard.Config.Settings
import LogicBoard.Design.Chip
import LogicBoard.Routing.Grid

namespace LogicBoard

/-! ## §1. Boards. -/

/-- The measures of a board and the costs of its cells. -/
structure RouteSettings where
  /-- Cells per unit of size. -/
  scale : Int := 4
  /-- Cells of at least this cost cannot be entered. -/
  maxCost : Nat := 10
  /-- The cost of the cell in front of a pin. -/
  pinCost : Nat := 9
deriving DecidableEq, Inhabited

/-- The part of all settings that routing depends on. -/
def Settings.route (s : Settings) : RouteSettings :=
  ⟨s.editor.scale, s.routing.maxCost, s.routing.pinCost⟩

/-- The content of a chip type as the router sees it. -/
structure Board where
  /-- The chip type whose content it is. -/
  owner : Name
  content : Content
  types : TypeLookup
  settings : RouteSettings

/-- A board cannot be routed. -/
inductive BoardFault where
  /-- The height is negative, so there is no edge to put the type's own ports on. -/
  | noEdge
deriving DecidableEq

/-- A pin on a board. -/
structure Placement where
  /-- The cell of the pin. -/
  anchor : Vec
  /-- The direction away from the chip. -/
  normal : Vec
  /-- The cell where wires end. -/
  standOff : Vec
  /-- Is it a port of the type itself? -/
  boundary : Bool
deriving DecidableEq, Inhabited

namespace Board

/-- The extent in cells. -/
def extent (b : Board) : Vec := b.content.gridSize b.settings.scale

/-! ## §2. Pins. -/

/-- The place of a port of the type itself; its stand-off is kept on the board. -/
def placeOnEdge (b : Board) (position : Nat) (output : Bool) : Placement :=
  let bottom := b.extent.y
  let anchor : Vec := ⟨position * b.settings.scale, if output then bottom else 0⟩
  let normal : Vec := ⟨0, if output then 1 else -1⟩
  ⟨anchor, normal, ⟨anchor.x, min (max (anchor.y + normal.y) 0) bottom⟩, true⟩

/-- The place of a pin of a chip. -/
def placeOnChip (b : Board) (c : Chip) (position : Nat) (output : Bool) : Placement :=
  let (offset, normal) := c.rotation.pinOffset (c.size b.types) position output
  let anchor := c.pos + offset
  ⟨anchor, normal, anchor + normal, false⟩

/-- The place of a pin; `none` if there is no such chip or port. -/
def place? (b : Board) (pin : Pin) : Option Placement :=
  if pin.chip = b.owner then
    ((b.types.get b.owner).position? pin.port pin.output).map (b.placeOnEdge · pin.output)
  else do
    let c ← b.content.chip? pin.chip
    let position ← (b.types.get c.type).position? pin.port pin.output
    return b.placeOnChip c position pin.output

/-- Is the pin a port of the type on a board without edges? -/
def lacksEdge (b : Board) (pin : Pin) : Bool :=
  b.extent.y < 0 && (b.place? pin).any (·.boundary)

/-- The named pins of a chip, the outputs first. -/
def pinsOf (b : Board) (c : Chip) : List Pin :=
  [true, false].flatMap fun output =>
    ((b.types.get c.type).namedPorts output).map (Pin.ofPort c.id output)

/-- The named pins of all chips. -/
def chipPins (b : Board) : List Pin := b.content.chips.values.flatMap b.pinsOf

/-! ## §3. Costs. -/

/-- The cells under a chip; the far edges belong to it. -/
def bodyCells (b : Board) (c : Chip) : List Vec :=
  let far := c.footprint b.types
  (List.range (far.x + 1).toNat).flatMap fun x =>
    (List.range (far.y + 1).toNat).map fun y => c.pos + ⟨x, y⟩

/-- Is a wire in the way of another one?  Wires on other layers are not, nor are wires with the
same source, so that branches may share cells. -/
def inTheWay (w : Wire) (other : Option Wire) : Bool :=
  other.all fun o => w.layer = o.layer && w.id ≠ o.id && w.source ≠ o.source

/-- The cells of the wires that are in the way of a wire, or of all wires. -/
def wireCells (b : Board) (other : Option Wire) : List Vec :=
  (b.content.wires.filter (inTheWay · other)).flatMap (·.path)

/-- Gives a cell the cost of stand-offs, unless it cannot be entered anyway. -/
def raise (b : Board) (costs : Grid Nat) (cell : Vec) : Grid Nat :=
  costs.modify cell fun c => if c < b.settings.maxCost then b.settings.pinCost else c

/-- How many cells there are along an edge, both ends included: a number of 32 bits, and none if it
wraps around to a negative one. -/
def cellsAlong (length : Int) : Nat := (Int32.ofInt (length + 1)).toInt.toNat

/-- The cost of every cell for routing a wire: wires in the way and chips cannot be entered, the
cells in front of pins are expensive, all others are free. -/
def costs (b : Board) (other : Option Wire) : Grid Nat :=
  let free : Grid Nat := .ofSize (cellsAlong b.extent.x) (cellsAlong b.extent.y) 0
  let blocked := b.wireCells other ++ b.content.chips.values.flatMap b.bodyCells
  let standOffs := (b.chipPins.filterMap b.place?).map (·.standOff)
  standOffs.foldl b.raise (blocked.foldl (fun g cell => g.set cell b.settings.maxCost) free)

end Board

end LogicBoard
