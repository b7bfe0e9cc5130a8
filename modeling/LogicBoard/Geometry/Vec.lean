/-
  LogicBoard.Geometry.Vec
  ────────────────────────────────
  **POINTS AND EXTENTS OF THE BOARD.**

  A `Vec` is a cell of the board or the extent of something on it; the
  vertical component grows downwards.  Everything on a board is placed with
  whole coordinates.
-/
namespace LogicBoard

/-- A point or an extent with whole coordinates. -/
@[ext]
structure Vec where
  x : Int
  y : Int
deriving DecidableEq, Inhabited

namespace Vec

/-! ## §1. Arithmetic. -/

/-- The origin. -/
def zero : Vec := ⟨0, 0⟩

/-- The extent of one unit. -/
def one : Vec := ⟨1, 1⟩

instance : Add Vec := ⟨fun a b => ⟨a.x + b.x, a.y + b.y⟩⟩

instance : Sub Vec := ⟨fun a b => ⟨a.x - b.x, a.y - b.y⟩⟩

/-- Stretches both components. -/
def scale (a : Vec) (k : Int) : Vec := ⟨a.x * k, a.y * k⟩

/-- Exchanges the components. -/
def swap (a : Vec) : Vec := ⟨a.y, a.x⟩

/-- The area of an extent. -/
def area (a : Vec) : Int := a.x * a.y

@[simp] theorem add_x (a b : Vec) : (a + b).x = a.x + b.x := rfl

@[simp] theorem add_y (a b : Vec) : (a + b).y = a.y + b.y := rfl

@[simp] theorem sub_x (a b : Vec) : (a - b).x = a.x - b.x := rfl

@[simp] theorem sub_y (a b : Vec) : (a - b).y = a.y - b.y := rfl

/-! ## §2. Distances. -/

/-- The square of the straight-line distance. -/
def distanceSquared (a b : Vec) : Int :=
  (a.x - b.x) * (a.x - b.x) + (a.y - b.y) * (a.y - b.y)

/-- The straight-line distance. -/
def distance (a b : Vec) : Float :=
  (Float.ofInt (a.distanceSquared b)).sqrt

/-- The number of steps along the axes from one point to the other. -/
def manhattan (a b : Vec) : Nat :=
  (a.x - b.x).natAbs + (a.y - b.y).natAbs

/-! ## §3. Bounds. -/

/-- Brings both components into a range; the upper end wins over the lower one. -/
def clamp (a : Vec) (lo hi : Int) : Vec :=
  ⟨min (max a.x lo) hi, min (max a.y lo) hi⟩

/-- Brings each component into a range of its own; the lower end wins over the upper one. -/
def clampVec (a lo hi : Vec) : Vec :=
  ⟨max (min a.x hi.x) lo.x, max (min a.y hi.y) lo.y⟩

/-! ## §4. Order and text. -/

/-- Compares the horizontal components, then the vertical ones. -/
def order (a b : Vec) : Ordering :=
  (compare a.x b.x).then (compare a.y b.y)

/-- The text of a point: both components in parentheses. -/
def text (a : Vec) : String :=
  "(" ++ toString a.x ++ ", " ++ toString a.y ++ ")"

end Vec

/-- The largest extent that a chip type may have. -/
def largestSize : Vec := ⟨1000, 1000⟩

end LogicBoard
