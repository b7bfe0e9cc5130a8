/-
  LogicBoard.Geometry.Rotation
  ────────────────────────────────
  **QUARTER TURNS AND THE PLACES OF PINS.**

  An unturned chip of extent `(w, h)` has its input pin `i` at `(i, 0)` on
  the top edge, facing up, and its output pin `i` at `(i, h)` on the bottom
  edge, facing down.  A clockwise quarter turn sends `(x, y)` to `(h - y, x)`
  and swaps the extent.  Footprints, pin places and pin directions all come
  from this one map, so they cannot disagree.
-/
import LogicBoard.Geometry.Vec

namespace LogicBoard

/-- How many clockwise quarter turns a placed chip has made. -/
inductive Rotation where
  | r0
  | r1
  | r2
  | r3
deriving DecidableEq, Inhabited

namespace Rotation

/-! ## §1. Counting turns. -/

/-- The number of quarter turns, from 0 to 3. -/
def turns : Rotation → Nat
  | r0 => 0
  | r1 => 1
  | r2 => 2
  | r3 => 3

/-- The rotation after any number of quarter turns in either direction. -/
def ofTurns (n : Int) : Rotation :=
  match (n % 4).toNat with
  | 0 => r0
  | 1 => r1
  | 2 => r2
  | _ => r3

/-- Turns further, in either direction. -/
def rotate (r : Rotation) (by' : Int) : Rotation :=
  ofTurns (r.turns + by')

/-- Do width and height trade places? -/
def isTransposed : Rotation → Bool
  | r0 | r2 => false
  | r1 | r3 => true

/-- The angle in degrees. -/
def degrees (r : Rotation) : Nat :=
  r.turns * 90

/-! ## §2. Turning points and directions. -/

/-- The extent that a chip of unturned extent `size` covers. -/
def footprint (r : Rotation) (size : Vec) : Vec :=
  if r.isTransposed then size.swap else size

/-- One quarter turn of a point inside an extent of height `h`. -/
def turnPoint (h : Int) (p : Vec) : Vec :=
  ⟨h - p.y, p.x⟩

/-- One quarter turn of a direction. -/
def turnDir (d : Vec) : Vec :=
  ⟨-d.y, d.x⟩

/-- The place of an unturned point after `n` quarter turns of the extent around it. -/
def turnedPoint : Nat → Vec → Vec → Vec
  | 0, _, p => p
  | n + 1, size, p => turnedPoint n size.swap (turnPoint size.y p)

/-- The place of an unturned point of a chip of extent `size`. -/
def transformPoint (r : Rotation) (p size : Vec) : Vec :=
  turnedPoint r.turns size p

/-- A direction after `n` quarter turns. -/
def turnedDir : Nat → Vec → Vec
  | 0, d => d
  | n + 1, d => turnedDir n (turnDir d)

/-- A direction after the rotation's turns. -/
def transformDir (r : Rotation) (d : Vec) : Vec :=
  turnedDir r.turns d

/-! ## §3. Pins. -/

/-- The largest pin position that is told apart from later ones. -/
def lastPosition : Nat := 2147483647

/-- The place of a pin relative to the chip's top left corner, and the direction away from the
chip. -/
def pinOffset (r : Rotation) (size : Vec) (position : Nat) (output : Bool) : Vec × Vec :=
  let i : Int := min position lastPosition
  let place : Vec := if output then ⟨i, size.y⟩ else ⟨i, 0⟩
  let direction : Vec := if output then ⟨0, 1⟩ else ⟨0, -1⟩
  (r.transformPoint place size, r.transformDir direction)

end Rotation

end LogicBoard
