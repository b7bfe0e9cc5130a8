/-
  LogicBoard.Design.Wire
  ────────────────────────────────
  **WIRES AND THEIR PATHS.**

  A wire runs from a driving pin to a driven pin.  Its path is the list of
  cells it covers, once it has been routed or drawn by hand.
-/
import LogicBoard.Design.Pin
import LogicBoard.Geometry.Rect

namespace LogicBoard

/-- The identity of a wire: its two ends. -/
structure WireId where
  source : Pin
  target : Pin
deriving DecidableEq, Inhabited

/-- The text of a wire's identity. -/
def WireId.text (w : WireId) : String :=
  w.source.text ++ ">" ++ w.target.text

/-- A wire from a driving pin to a driven pin. -/
structure Wire where
  /-- Wires stand in each other's way only on the same layer. -/
  layer : Int
  /-- The cells from source to target. -/
  path : List Vec
  source : Pin
  target : Pin
  /-- Was the path drawn by hand?  Then a general rerouting leaves it alone. -/
  drawn : Bool
  /-- Did the last routing succeed? -/
  valid : Bool
deriving DecidableEq, Inhabited

namespace Wire

/-- A wire that has not been routed yet. -/
def between (source target : Pin) (layer : Int) : Wire :=
  ⟨layer, [], source, target, false, true⟩

/-- The identity of the wire. -/
def id (w : Wire) : WireId := ⟨w.source, w.target⟩

/-- Is one of the ends on the chip? -/
def usesChip (w : Wire) (chip : Name) : Bool :=
  w.source.chip = chip || w.target.chip = chip

/-- Is the pin one of the ends? -/
def usesPin (w : Wire) (pin : Pin) : Bool :=
  w.source = pin || w.target = pin

/-- The wire without its path, ready to be routed again. -/
def cleared (w : Wire) : Wire :=
  { w with path := [], valid := false }

/-- The straight segments between consecutive cells of the path. -/
def segments (w : Wire) : List Segment :=
  w.path.zipWith (fun a b => ⟨a, b⟩) (w.path.drop 1)

universe u

/-- Does the path touch the rectangle?  A path of a single cell has no segment, so the cell
itself counts. -/
def touches {K : Type u} [Coordinate K] [Sub K] [Mul K] [LE K] [DecidableLE K] [LT K]
    [DecidableLT K] [Min K] [Max K] [BEq K] (w : Wire) (r : Rect K) : Bool :=
  match w.path with
  | [cell] => r.contains (coord cell.x) (coord cell.y)
  | _ => w.segments.any (·.intersectsRect r)

end Wire

end LogicBoard
