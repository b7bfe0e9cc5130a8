/-
  LogicBoard.Edit.Editor
  ────────────────────────────────
  **EDITING THE CONTENT OF A TYPE.**

  An editor works on a copy of the content of one custom type.  It refuses
  what would make the content ill-formed, and it keeps the wires it touches
  routed.  Definitions of types are handed to each operation, so an editor
  depends on no registry.

  An operation that may be refused answers `none` and nothing has changed.
-/
import LogicBoard.Edit.Problem
import LogicBoard.Registry

namespace LogicBoard

/-- A content under change. -/
structure Editor where
  /-- The type whose content it is. -/
  owner : Name
  content : Content
  settings : RouteSettings

namespace Editor

/-! ## §1. Sessions. -/

universe u

/-- Starts to edit a copy of the content of a type. -/
def ofType {σ : Type u} (r : Registry σ) (owner : Name) : Editor :=
  let t := r.types.get owner
  ⟨owner, { t.content with size := t.size }, r.route⟩

/-- Writes the content back. -/
def commit {σ : Type u} [TypeStore σ] (e : Editor) (r : Registry σ) : Registry.Outcome σ Unit :=
  r.setContent e.owner e.content

/-- The content as the router sees it. -/
def board (e : Editor) (types : TypeLookup) : Board := ⟨e.owner, e.content, types, e.settings⟩

/-- The extent of the content in cells. -/
def gridSize (e : Editor) : Vec := e.content.gridSize e.settings.scale

/-- The wire between two pins. -/
def wire? (e : Editor) (id : WireId) : Option Wire := e.content.wires.find? (·.id = id)

/-- The editor with a chip put in its place. -/
def put (e : Editor) (c : Chip) : Editor := { e with content := e.content.put c }

/-- The editor with other wires. -/
def withWires (e : Editor) (wires : List Wire) : Editor :=
  { e with content := { e.content with wires } }

/-! ## §2. Routing. -/

/-- Routes the wires of a chip, or all that were not drawn by hand, and counts them. -/
def reroute (e : Editor) (types : TypeLookup) (chip : Option Name) :
    Except BoardFault (Nat × Editor) := do
  let (count, content) ← (e.board types).reroute chip
  return (count, { e with content })

/-- The costs for routing a wire, or with all wires in the way. -/
def costMap (e : Editor) (types : TypeLookup) (other : Option Wire) :
    Except BoardFault (Grid Nat) :=
  (e.board types).costMap other

/-! ## §3. Chips. -/

/-- May the chip be placed?  Its name has to be new, and a custom chip has to be smaller than the
type around it. -/
def accepts (e : Editor) (types : TypeLookup) (c : Chip) : Bool :=
  !c.id.isEmpty && c.id ≠ e.owner && !e.content.chips.contains c.id
    && (types.isStandard c.type || (c.size types).area < e.content.size.area)

/-- Places a chip as near to its position as the board allows. -/
def addChip? (e : Editor) (types : TypeLookup) (c : Chip) : Option Editor :=
  if e.accepts types c then
    some (e.put (c.clampTo e.gridSize types))
  else none

/-- Removes the wires of a chip. -/
def disconnectChip (e : Editor) (id : Name) : Editor :=
  e.withWires (e.content.wires.filter (!·.usesChip id))

/-- Removes a chip and its wires. -/
def removeChip? (e : Editor) (id : Name) : Option Editor :=
  if e.content.chips.contains id then
    some ({ e with content := e.content.remove id }.disconnectChip id)
  else none

/-- Changes a chip and routes its wires again. -/
def adjust (e : Editor) (types : TypeLookup) (id : Name) (f : Chip → Chip) :
    Except BoardFault (Option Editor) :=
  match e.content.chips.find? id with
  | none => .ok none
  | some c => do
    let (_, e) ← (e.put (f c)).reroute types (some id)
    return some e

/-- Moves a chip as near to a cell as the board allows. -/
def moveChip (e : Editor) (types : TypeLookup) (id : Name) (pos : Vec) :
    Except BoardFault (Option Editor) :=
  e.adjust types id (·.moveTo pos e.gridSize types)

/-- Turns a chip. -/
def rotateChip (e : Editor) (types : TypeLookup) (id : Name) (turns : Int) :
    Except BoardFault (Option Editor) :=
  e.adjust types id fun c => (c.rotate turns).clampTo e.gridSize types

/-- Fills a constant slot of a chip. -/
def setConstant? (e : Editor) (types : TypeLookup) (id : Name) (key : String) (value : Constant) :
    Option Editor := do
  let c ← e.content.chips.find? id
  return e.put (← c.setConstant? key value types)

/-! ## §4. Wires. -/

/-- Does a wire end on the pin? -/
def isConnected (e : Editor) (pin : Pin) : Bool := e.content.wires.any (·.usesPin pin)

/-- Is an existing pin a port of the type itself?  `none` if the pin does not exist. -/
def isBoundary? (e : Editor) (types : TypeLookup) (pin : Pin) : Option Bool :=
  ((e.board types).place? pin).map (·.boundary)

/-- Is the pin driven already?  Inside a type its own outputs are driven. -/
def isDriven (e : Editor) (pin : Pin) (boundary : Bool) : Bool :=
  e.isConnected pin && pin.output = boundary

/-- The source and the target of a wire between two pins, in this order; `none` if neither pin can
drive the other one. -/
def oriented? (a : Pin) (aBoundary : Bool) (b : Pin) (bBoundary : Bool) : Option (Pin × Pin) :=
  let mixed := aBoundary ≠ bBoundary
  if mixed = decide (a.output ≠ b.output) then none
  else
    let swapped :=
      if aBoundary && bBoundary then a.output
      else if mixed then (if a.output then aBoundary else bBoundary)
      else !a.output
    some (if swapped then (b, a) else (a, b))

/-- The source and the target of the wire that would connect two pins. -/
def ends? (e : Editor) (types : TypeLookup) (a b : Pin) : Option (Pin × Pin) := do
  let aBoundary ← e.isBoundary? types a
  let bBoundary ← e.isBoundary? types b
  if e.isDriven a aBoundary || e.isDriven b bBoundary then none
  else oriented? a aBoundary b bBoundary

/-- Connects two pins by a wire and routes it. -/
def connect (e : Editor) (types : TypeLookup) (a b : Pin) (layer : Int) :
    Except BoardFault (Option Editor) :=
  match e.ends? types a b with
  | none => .ok none
  | some (source, target) => do
    let w := Wire.between source target layer
    let route ← (e.board types).route w
    return some (e.withWires (e.content.wires ++ [route.along w]))

/-- Removes the wires of a pin. -/
def disconnect (e : Editor) (pin : Pin) : Editor :=
  e.withWires (e.content.wires.filter (!·.usesPin pin))

/-! ## §5. The whole content. -/

/-- Changes the size, moves all chips onto the board and routes the wires that were not drawn by
hand again. -/
def setSize (e : Editor) (types : TypeLookup) (size : Vec) : Except BoardFault Editor := do
  let content := { e.content with size }
  let grid := content.gridSize e.settings.scale
  let content := content.mapChips (·.clampTo grid types) (Chip.clampTo_id grid types)
  let (_, e) ← { e with content }.reroute types none
  return e

/-- Everything that is wrong. -/
def problems (e : Editor) (types : TypeLookup) : List Problem :=
  e.content.problems e.content.size types

/-! ## §6. Finding things by position. -/

/-- The first wire whose path passes through a cell. -/
def wireAt? (K : Type) [Coordinate K] [Add K] [Sub K] [Mul K] [Min K] [Max K] [OfScientific K]
    [LE K] [DecidableLE K] [LT K] [DecidableLT K] [BEq K] (e : Editor) (pos : Vec) : Option Wire :=
  let hit : Rect K := (Rect.ofPoint pos).pad 0.1
  e.content.wires.find? (·.touches hit)

/-- The first chip whose body covers a cell. -/
def chipAt? (K : Type) [Coordinate K] [Add K] [Sub K] [OfScientific K] [LE K] [DecidableLE K]
    (e : Editor) (types : TypeLookup) (pos : Vec) : Option Chip :=
  e.content.chips.values.find? fun c =>
    ((c.rect types : Rect K).pad 0.3).contains (coord pos.x) (coord pos.y)

/-- The other chips whose bodies touch the body of a chip. -/
def overlapping (K : Type) [Coordinate K] [Add K] [Sub K] [Mul K] [Min K] [Max K] [OfScientific K]
    [LT K] [DecidableLT K] (e : Editor) (types : TypeLookup) (c : Chip) : List Chip :=
  e.content.chips.values.filter fun other =>
    other.id ≠ c.id && (coord 0 : K) < other.overlap c types

end Editor

end LogicBoard
