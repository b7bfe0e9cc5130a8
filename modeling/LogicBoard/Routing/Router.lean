/-
  LogicBoard.Routing.Router
  ────────────────────────────────
  **ROUTING WIRES.**

  A wire is routed from the stand-off of its source to the stand-off of its
  target.  No search is needed where the two stand-offs are one cell, or where
  one of the pins is the stand-off of the other; which way the pins point does
  not matter.  Several wires are routed one after the other, those with the
  nearest pins first, so that short wires take their cells before long ones.
-/
import LogicBoard.Routing.Board
import LogicBoard.Routing.Search

namespace LogicBoard

/-! ## §1. Outcomes. -/

/-- What came of routing a wire. -/
inductive Route where
  /-- One cell is in front of both pins, or one pin is in front of the other; nothing was
  searched. -/
  | direct (path : List Vec)
  /-- The search found a path. -/
  | searched (path : List Vec)
  /-- A pin does not exist, or there is no path. -/
  | failed
deriving DecidableEq, Inhabited

namespace Route

/-- Is there a path? -/
def isValid : Route → Bool
  | failed => false
  | _ => true

/-- The cells from source to target. -/
def path : Route → List Vec
  | direct p | searched p => p
  | failed => []

/-- The wire along the route. -/
def along (r : Route) (w : Wire) : Wire :=
  { w with path := r.path, valid := r.isValid }

end Route

namespace Board

/-! ## §2. One wire. -/

/-- The route between pins that need no search. -/
def direct? (source target : Placement) : Option (List Vec) :=
  let first := source.standOff
  let last := target.standOff
  if first = last then some [first]
  else if source.anchor = last || target.anchor = first then some [first, last]
  else none

/-- The route of a wire, given that the board has edges. -/
def routeOf (b : Board) (w : Wire) : Route :=
  match b.place? w.source, b.place? w.target with
  | some source, some target =>
    match direct? source target with
    | some path => .direct path
    | none =>
      match cheapestPath? (b.costs (some w)) b.settings.maxCost source.standOff target.standOff with
      | some path => .searched path
      | none => .failed
  | _, _ => .failed

/-- Does routing the wire meet a pin that would be on an edge which the board lacks? -/
def routeLacksEdge (b : Board) (w : Wire) : Bool :=
  b.lacksEdge w.source || b.lacksEdge w.target ||
    match b.place? w.source, b.place? w.target with
    | some source, some target =>
      (direct? source target).isNone && b.chipPins.any b.lacksEdge
    | _, _ => false

/-- The square of the distance between the pins of a wire, if both exist. -/
def span? (b : Board) (w : Wire) : Option Int := do
  return (← b.place? w.source).anchor.distanceSquared (← b.place? w.target).anchor

/-! ## §3. Several wires. -/

/-- The span that stands in for that of a wire with a pin that does not exist. -/
def unknownSpan : Int := 1000000

/-- Is the wire to be routed again?  Either the wires on a chip are, or all that were not drawn by
hand. -/
def isSelected (chip : Option Name) (w : Wire) : Bool :=
  match chip with
  | some id => w.usesChip id
  | none => !w.drawn

/-- The positions of the selected wires, nearest pins first, otherwise in order. -/
def schedule (b : Board) (chip : Option Name) : List Nat :=
  let selected := b.content.wires.zipIdx.filter (isSelected chip ·.1)
  let spans := selected.map fun (w, i) => ((b.span? w).getD unknownSpan, i)
  (spans.mergeSort fun a b => a.1 ≤ b.1).map (·.2)

/-- The board with other wires. -/
def withWires (b : Board) (wires : List Wire) : Board :=
  { b with content := { b.content with wires } }

/-- The board on which the selected wires have no paths. -/
def unrouted (b : Board) (chip : Option Name) : Board :=
  b.withWires (b.content.wires.map fun w => if isSelected chip w then w.cleared else w)

/-- Routes the wire at a position. -/
def routeAt (b : Board) (i : Nat) : Except BoardFault Board :=
  match b.content.wires[i]? with
  | none => .ok b
  | some w =>
    if b.routeLacksEdge w then .error .noEdge
    else .ok (b.withWires (b.content.wires.set i ((b.routeOf w).along w)))

/-! ## §4. Use. -/

/-- The place of a pin. -/
def place (b : Board) (pin : Pin) : Except BoardFault (Option Placement) :=
  if b.lacksEdge pin then .error .noEdge else .ok (b.place? pin)

/-- The costs for routing a wire, or with all wires in the way. -/
def costMap (b : Board) (other : Option Wire) : Except BoardFault (Grid Nat) :=
  if b.chipPins.any b.lacksEdge then .error .noEdge else .ok (b.costs other)

/-- The route of a wire; the board stays as it is. -/
def route (b : Board) (w : Wire) : Except BoardFault Route :=
  if b.routeLacksEdge w then .error .noEdge else .ok (b.routeOf w)

/-- Routes the wires on a chip, or all wires that were not drawn by hand, and tells how many there
are. -/
def reroute (b : Board) (chip : Option Name) : Except BoardFault (Nat × Content) := do
  let order := b.schedule chip
  let routed ← order.foldlM routeAt (b.unrouted chip)
  return (order.length, routed.content)

end Board

end LogicBoard
