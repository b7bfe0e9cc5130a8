/-
  LogicBoard.Geometry.Rect
  ────────────────────────────────
  **RECTANGLES AND SEGMENTS.**

  Hit tests and overlap checks pad rectangles by fractions of a cell, so
  their edges are not whole numbers.  Everything here is stated for any kind
  of number with a cast from the integers: a program runs it in floating
  point, and exact statements read it over the integers or the rationals.
-/
import LogicBoard.Geometry.Vec

namespace LogicBoard

universe u

/-- Numbers that measure the plane: every whole coordinate is one of them. -/
class Coordinate (K : Type u) where
  ofInt : Int → K

instance : Coordinate Float := ⟨Float.ofInt⟩

instance : Coordinate Int := ⟨fun n => n⟩

instance : Coordinate Rat := ⟨fun n => n⟩

variable {K : Type u} [Coordinate K]

/-- A whole coordinate as a number of the plane. -/
abbrev coord (n : Int) : K := Coordinate.ofInt n

/-! ## §1. Rectangles. -/

/-- A rectangle with edges along the axes. -/
structure Rect (K : Type u) where
  left : K
  right : K
  top : K
  bottom : K
deriving DecidableEq

namespace Rect

/-- The rectangle between two corners. -/
def ofCorners (topLeft bottomRight : Vec) : Rect K :=
  ⟨coord topLeft.x, coord bottomRight.x, coord topLeft.y, coord bottomRight.y⟩

/-- The rectangle of one point. -/
def ofPoint (p : Vec) : Rect K :=
  ofCorners p p

/-- The rectangle of an extent at a place. -/
def ofPlace (pos size : Vec) : Rect K :=
  ofCorners pos (pos + size)

/-- Grows the rectangle on every side. -/
def pad [Add K] [Sub K] (r : Rect K) (by' : K) : Rect K :=
  ⟨r.left - by', r.right + by', r.top - by', r.bottom + by'⟩

/-- The area that two rectangles share. -/
def overlapArea [Sub K] [Mul K] [Min K] [Max K] (r s : Rect K) : K :=
  max (min r.right s.right - max r.left s.left) (coord 0) *
    max (min r.bottom s.bottom - max r.top s.top) (coord 0)

/-- Does the point lie inside or on the border? -/
def contains [LE K] [DecidableLE K] (r : Rect K) (x y : K) : Bool :=
  r.left ≤ x && x ≤ r.right && r.top ≤ y && y ≤ r.bottom

end Rect

/-! ## §2. Segments. -/

/-- A straight segment between two points of the board. -/
structure Segment where
  start : Vec
  stop : Vec
deriving DecidableEq

namespace Segment

/-- Twice the signed area of the triangle `a b c`. -/
def turn [Sub K] [Mul K] (a b c : K × K) : K :=
  (b.1 - a.1) * (c.2 - a.2) - (b.2 - a.2) * (c.1 - a.1)

/-- Does `p` lie in the box that `a` and `b` span? -/
def inBox [LE K] [DecidableLE K] [Min K] [Max K] (a b p : K × K) : Bool :=
  min a.1 b.1 ≤ p.1 && p.1 ≤ max a.1 b.1 && min a.2 b.2 ≤ p.2 && p.2 ≤ max a.2 b.2

/-- Are the two numbers on different sides of zero? -/
def opposite [LT K] [DecidableLT K] (s t : K) : Bool :=
  ((coord 0 : K) < s && t < (coord 0 : K)) || (s < (coord 0 : K) && (coord 0 : K) < t)

/-- Do the closed segments `a b` and `c d` meet?  They cross, or an end of one lies on the other. -/
def meet [Sub K] [Mul K] [LE K] [DecidableLE K] [LT K] [DecidableLT K] [Min K] [Max K] [BEq K]
    (a b c d : K × K) : Bool :=
  let o₁ := turn a b c
  let o₂ := turn a b d
  let o₃ := turn c d a
  let o₄ := turn c d b
  (opposite o₁ o₂ && opposite o₃ o₄)
    || (o₁ == coord 0 && inBox a b c) || (o₂ == coord 0 && inBox a b d)
    || (o₃ == coord 0 && inBox c d a) || (o₄ == coord 0 && inBox c d b)

/-- A point of the board as a point of the plane. -/
def planePoint (p : Vec) : K × K :=
  (coord p.x, coord p.y)

/-- Do two segments meet? -/
def intersects (K : Type u) [Coordinate K] [Sub K] [Mul K] [LE K] [DecidableLE K] [LT K]
    [DecidableLT K] [Min K] [Max K] [BEq K] (s t : Segment) : Bool :=
  meet (K := K) (planePoint s.start) (planePoint s.stop) (planePoint t.start) (planePoint t.stop)

/-- Does any part of the segment lie in the rectangle? -/
def intersectsRect [Sub K] [Mul K] [LE K] [DecidableLE K] [LT K] [DecidableLT K] [Min K] [Max K]
    [BEq K] (s : Segment) (r : Rect K) : Bool :=
  let a : K × K := planePoint s.start
  let b : K × K := planePoint s.stop
  r.contains a.1 a.2 || r.contains b.1 b.2
    || meet a b (r.left, r.top) (r.right, r.top) || meet a b (r.right, r.top) (r.right, r.bottom)
    || meet a b (r.right, r.bottom) (r.left, r.bottom) || meet a b (r.left, r.bottom) (r.left, r.top)

end Segment

end LogicBoard
