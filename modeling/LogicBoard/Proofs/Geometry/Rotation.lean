/-
  LogicBoard.Proofs.Geometry.Rotation
  ────────────────────────────────
  **PINS TURN WITH THEIR CHIP.**

  A rotation is a number of quarter turns, so what one quarter turn keeps, all
  rotations keep.  A quarter turn moves different points to different places,
  carries the rim of an extent to the rim of the turned extent, and turns what
  points away from the extent there so that it does so still.

  Main statements:
    • `transformPoint_rotate`, `transformDir_rotate` — one turn more,
    • `turnedPoint_injective` — different points go to different places,
    • `AtRim.turn`, `AtRim.turned` — what is at the rim stays there,
    • `atRim_pinOffset` — pins are at the rim of their chip,
    • `pinOffset_injective` — each at a place of its own.
-/
import LogicBoard.Geometry.Rotation

namespace LogicBoard.Rotation

/-! ## §1. Several turns. -/

/-- An extent after `n` quarter turns. -/
def turnedExtent : Nat → Vec → Vec
  | 0, size => size
  | n + 1, size => turnedExtent n size.swap

theorem footprint_eq_turnedExtent (r : Rotation) (size : Vec) :
    r.footprint size = turnedExtent r.turns size := by
  cases r <;> rfl

/-- The last of the turns may be made by itself. -/
theorem turnedPoint_succ (n : Nat) (size p : Vec) :
    turnedPoint (n + 1) size p = turnPoint (turnedExtent n size).y (turnedPoint n size p) := by
  induction n generalizing size p with
  | zero => rfl
  | succ n ih =>
    show turnedPoint (n + 1) size.swap (turnPoint size.y p) = _
    rw [ih]
    rfl

theorem turnedDir_succ (n : Nat) (d : Vec) : turnedDir (n + 1) d = turnDir (turnedDir n d) := by
  induction n generalizing d with
  | zero => rfl
  | succ n ih =>
    show turnedDir (n + 1) (turnDir d) = _
    rw [ih]
    rfl

/-- After four turns everything is back in its place. -/
theorem turnedPoint_four (size p : Vec) : turnedPoint 4 size p = p := by
  simp only [turnedPoint, turnPoint, Vec.swap]
  ext
  · dsimp only
    omega
  · dsimp only
    omega

theorem turnedDir_four (d : Vec) : turnedDir 4 d = d := by
  simp only [turnedDir, turnDir]
  ext
  · dsimp only
    omega
  · dsimp only
    omega

/-- A chip that is turned once more has everything one quarter turn further. -/
theorem transformPoint_rotate (r : Rotation) (p size : Vec) :
    (r.rotate 1).transformPoint p size
      = turnPoint (r.footprint size).y (r.transformPoint p size) := by
  rw [footprint_eq_turnedExtent]
  unfold transformPoint
  rw [← turnedPoint_succ]
  cases r with
  | r0 | r1 | r2 => rfl
  | r3 => exact (turnedPoint_four size p).symm

theorem transformDir_rotate (r : Rotation) (d : Vec) :
    (r.rotate 1).transformDir d = turnDir (r.transformDir d) := by
  unfold transformDir
  rw [← turnedDir_succ]
  cases r with
  | r0 | r1 | r2 => rfl
  | r3 => exact (turnedDir_four d).symm

/-! ## §2. Points and directions. -/

theorem turnPoint_add (h : Int) (p d : Vec) : turnPoint h (p + d) = turnPoint h p + turnDir d := by
  unfold turnPoint turnDir
  ext
  · simp only [Vec.add_x, Vec.add_y]
    omega
  · rfl

/-- What is in front of a point is in front of it after all turns. -/
theorem turnedPoint_add (n : Nat) (size p d : Vec) :
    turnedPoint n size (p + d) = turnedPoint n size p + turnedDir n d := by
  induction n generalizing size p d with
  | zero => rfl
  | succ n ih =>
    unfold turnedPoint turnedDir
    rw [turnPoint_add, ih]

theorem turnPoint_injective {h : Int} {p q : Vec} (heq : turnPoint h p = turnPoint h q) :
    p = q := by
  have hx : h - p.y = h - q.y := congrArg Vec.x heq
  have hy : p.x = q.x := congrArg Vec.y heq
  ext
  · exact hy
  · omega

/-- Different points go to different places. -/
theorem turnedPoint_injective {n : Nat} {size p q : Vec}
    (heq : turnedPoint n size p = turnedPoint n size q) : p = q := by
  induction n generalizing size p q with
  | zero => exact heq
  | succ n ih => exact turnPoint_injective (ih heq)

/-! ## §3. The rim of an extent. -/

/-- The offset is at the rim of the extent, on the side to which the direction points. -/
structure AtRim (extent offset normal : Vec) : Prop where
  column : 0 ≤ offset.x ∧ offset.x ≤ extent.x
  row : 0 ≤ offset.y ∧ offset.y ≤ extent.y
  /-- The sides go round clockwise, from the top. -/
  side : (normal = ⟨0, -1⟩ ∧ offset.y = 0) ∨ (normal = ⟨1, 0⟩ ∧ offset.x = extent.x) ∨
    (normal = ⟨0, 1⟩ ∧ offset.y = extent.y) ∨ (normal = ⟨-1, 0⟩ ∧ offset.x = 0)

/-- A quarter turn carries each side to the next one. -/
theorem AtRim.turn {extent offset normal : Vec} (h : AtRim extent offset normal) :
    AtRim extent.swap (turnPoint extent.y offset) (turnDir normal) := by
  obtain ⟨hcolumn, hrow, hside⟩ := h
  unfold turnPoint turnDir Vec.swap
  constructor
  case column =>
    dsimp only
    omega
  case row => exact hcolumn
  case side =>
    rcases hside with ⟨rfl, hy⟩ | ⟨rfl, hx⟩ | ⟨rfl, hy⟩ | ⟨rfl, hx⟩
    · refine Or.inr (Or.inl ⟨rfl, ?_⟩)
      dsimp only
      omega
    · exact Or.inr (Or.inr (Or.inl ⟨rfl, hx⟩))
    · refine Or.inr (Or.inr (Or.inr ⟨rfl, ?_⟩))
      dsimp only
      omega
    · exact Or.inl ⟨rfl, hx⟩

theorem AtRim.turned {size offset normal : Vec} (h : AtRim size offset normal) (n : Nat) :
    AtRim (turnedExtent n size) (turnedPoint n size offset) (turnedDir n normal) := by
  induction n generalizing size offset normal with
  | zero => exact h
  | succ n ih => exact ih h.turn

/-- The cell in front of the rim is beyond it. -/
theorem AtRim.beyond {extent offset normal : Vec} (h : AtRim extent offset normal) :
    ¬ ((0 ≤ (offset + normal).x ∧ (offset + normal).x ≤ extent.x) ∧
      (0 ≤ (offset + normal).y ∧ (offset + normal).y ≤ extent.y)) := by
  rw [Vec.add_x, Vec.add_y]
  rcases h.side with ⟨rfl, hy⟩ | ⟨rfl, hx⟩ | ⟨rfl, hy⟩ | ⟨rfl, hx⟩
  all_goals
    dsimp only
    omega

/-- The direction is one step. -/
theorem AtRim.step {extent offset normal : Vec} (h : AtRim extent offset normal) :
    (-1 ≤ normal.x ∧ normal.x ≤ 1) ∧ (-1 ≤ normal.y ∧ normal.y ≤ 1) := by
  rcases h.side with ⟨rfl, -⟩ | ⟨rfl, -⟩ | ⟨rfl, -⟩ | ⟨rfl, -⟩
  all_goals decide

/-! ## §4. Pins. -/

/-- The place of a pin on an unturned chip. -/
def pinPlace (size : Vec) (position : Nat) (output : Bool) : Vec :=
  ⟨min position lastPosition, if output then size.y else 0⟩

/-- The direction away from an unturned chip. -/
def pinDirection (output : Bool) : Vec := ⟨0, if output then 1 else -1⟩

theorem pinOffset_eq (r : Rotation) (size : Vec) (position : Nat) (output : Bool) :
    r.pinOffset size position output = (r.transformPoint (pinPlace size position output) size,
      r.transformDir (pinDirection output)) := by
  cases output <;> rfl

/-- Pins are at the rim of their chip. -/
theorem atRim_pinOffset (r : Rotation) {size : Vec} {position : Nat} (output : Bool)
    (hposition : (position : Int) ≤ size.x) (hheight : 0 ≤ size.y) :
    AtRim (r.footprint size) (r.pinOffset size position output).1
      (r.pinOffset size position output).2 := by
  have hunturned : AtRim size (pinPlace size position output) (pinDirection output) := by
    unfold pinPlace pinDirection
    cases output with
    | false => exact ⟨by dsimp only; omega, ⟨Int.le_refl 0, hheight⟩, Or.inl ⟨rfl, rfl⟩⟩
    | true =>
      exact ⟨by dsimp only; omega, ⟨hheight, Int.le_refl _⟩, Or.inr (Or.inr (Or.inl ⟨rfl, rfl⟩))⟩
  rw [footprint_eq_turnedExtent, pinOffset_eq]
  exact hunturned.turned r.turns

/-- The column of a pin on an unturned chip tells its position. -/
theorem position_eq {size : Vec} {i j : Nat} {output output' : Bool} (hi : i ≤ lastPosition)
    (hj : j ≤ lastPosition) (h : (pinPlace size i output).x = (pinPlace size j output').x) :
    i = j := by
  have hcolumn : min (i : Int) lastPosition = min (j : Int) lastPosition := h
  omega

/-- Different pins of an unturned chip have different places. -/
theorem pinPlace_injective {size : Vec} {i j : Nat} {output output' : Bool}
    (hheight : 1 ≤ size.y) (hi : i ≤ lastPosition) (hj : j ≤ lastPosition)
    (heq : pinPlace size i output = pinPlace size j output') : output = output' ∧ i = j := by
  refine ⟨?_, position_eq hi hj (congrArg Vec.x heq)⟩
  have hrow : (if output then size.y else 0) = (if output' then size.y else 0) :=
    congrArg Vec.y heq
  cases output <;> cases output' <;> simp at hrow ⊢ <;> omega

/-- The cells in front of different pins of an unturned chip are different, too. -/
theorem pinFront_injective {size : Vec} {i j : Nat} {output output' : Bool}
    (hheight : 1 ≤ size.y) (hi : i ≤ lastPosition) (hj : j ≤ lastPosition)
    (heq : pinPlace size i output + pinDirection output
      = pinPlace size j output' + pinDirection output') : output = output' ∧ i = j := by
  have hcolumn : (pinPlace size i output).x + 0 = (pinPlace size j output').x + 0 :=
    congrArg Vec.x heq
  rw [Int.add_zero, Int.add_zero] at hcolumn
  refine ⟨?_, position_eq hi hj hcolumn⟩
  have hrow : (if output then size.y else 0) + (if output then 1 else -1)
      = (if output' then size.y else 0) + (if output' then 1 else -1) := congrArg Vec.y heq
  cases output <;> cases output' <;> simp at hrow ⊢ <;> omega

/-- Different pins of a chip have different places. -/
theorem pinOffset_injective (r : Rotation) {size : Vec} {i j : Nat} {output output' : Bool}
    (hheight : 1 ≤ size.y) (hi : i ≤ lastPosition) (hj : j ≤ lastPosition)
    (heq : (r.pinOffset size i output).1 = (r.pinOffset size j output').1) :
    output = output' ∧ i = j := by
  rw [pinOffset_eq, pinOffset_eq] at heq
  exact pinPlace_injective hheight hi hj (turnedPoint_injective heq)

/-- The cells in front of different pins of a chip are different, too. -/
theorem pinOffset_front_injective (r : Rotation) {size : Vec} {i j : Nat} {output output' : Bool}
    (hheight : 1 ≤ size.y) (hi : i ≤ lastPosition) (hj : j ≤ lastPosition)
    (heq : (r.pinOffset size i output).1 + (r.pinOffset size i output).2
      = (r.pinOffset size j output').1 + (r.pinOffset size j output').2) :
    output = output' ∧ i = j := by
  rw [pinOffset_eq, pinOffset_eq] at heq
  unfold transformPoint transformDir at heq
  dsimp only at heq
  rw [← turnedPoint_add, ← turnedPoint_add] at heq
  exact pinFront_injective hheight hi hj (turnedPoint_injective heq)

end LogicBoard.Rotation
