/-
  LogicBoard.Proofs.Routing.Pins
  ────────────────────────────────
  **WHERE PINS ARE ON A BOARD.**

  The pins of a chip are around its body, on the side to which they point,
  and wires end in front of them, outside the body.  Turning the chip turns
  all of them with it.  The ports of the type itself are on the edge of its
  board, and wires end right there.  No two pins of one chip, and no two ports
  of the type, are in the way of each other.

  Main statements:
    • `place?_chip_iff`, `place?_owner_iff` — which pins have a place,
    • `aroundChip_placeOnChip`, `onEdge_placeOnEdge` — where one pin is,
    • `pins_placed` — where all pins are, whatever the rotations.
-/
import LogicBoard.Proofs.Design.Content
import LogicBoard.Proofs.Geometry.Rotation
import LogicBoard.Proofs.Routing.Costs

namespace LogicBoard

theorem Vec.add_assoc (a p q : Vec) : a + p + q = a + (p + q) := by
  ext
  · exact Int.add_assoc a.x p.x q.x
  · exact Int.add_assoc a.y p.y q.y

theorem Vec.add_left_cancel {a p q : Vec} (h : a + p = a + q) : p = q := by
  ext
  · exact Int.add_left_cancel (congrArg Vec.x h)
  · exact Int.add_left_cancel (congrArg Vec.y h)

theorem Vec.add_sub_comm (a p q : Vec) : a + p - q = a - q + p := by
  ext
  · rw [Vec.add_x, Vec.sub_x, Vec.sub_x, Vec.add_x]
    omega
  · rw [Vec.add_y, Vec.sub_y, Vec.sub_y, Vec.add_y]
    omega

/-- Relative to the chip's corner, the cells under the chip begin at the origin. -/
theorem Chip.covers_iff {c : Chip} {types : TypeLookup} {cell : Vec} : c.Covers types cell ↔
    (0 ≤ (cell - c.pos).x ∧ (cell - c.pos).x ≤ (c.footprint types).x) ∧
      (0 ≤ (cell - c.pos).y ∧ (cell - c.pos).y ≤ (c.footprint types).y) := by
  unfold Chip.Covers
  rw [Vec.sub_x, Vec.sub_y]
  omega

theorem ChipType.lt_of_position? {t : ChipType} {port : String} {output : Bool} {i : Nat}
    (h : t.position? port output = some i) : i < (t.ports output).length := by
  unfold position? at h
  split at h
  · exact absurd h (by simp)
  · exact (List.idxOf?_eq_some_iff.1 h).1

/-- There is something of the type to be seen, and both sides have one position more than there are
columns.  A size is made of numbers of 32 bits, so no position is beyond the last one. -/
structure ChipType.HasRows (t : ChipType) : Prop where
  width : 1 ≤ t.size.x ∧ t.size.x ≤ Rotation.lastPosition
  height : 1 ≤ t.size.y
  positions : ∀ output, ((t.ports output).length : Int) = t.size.x + 1

namespace Board

variable {b : Board} {c : Chip}

/-! ## §1. Which pins have a place. -/

theorem place?_chip_iff (hc : b.content.chip? c.id = some c) (howner : c.id ≠ b.owner)
    {pin : Pin} {p : Placement} (hpin : pin.chip = c.id) :
    b.place? pin = some p ↔ ∃ i, (b.types.get c.type).position? pin.port pin.output = some i ∧
      p = b.placeOnChip c i pin.output := by
  unfold place?
  rw [if_neg (hpin ▸ howner), hpin, hc]
  simp only [Option.bind_eq_bind, Option.bind_some, Option.bind_eq_some_iff, pure,
    Option.some.injEq]
  constructor
  · rintro ⟨i, hi, rfl⟩
    exact ⟨i, hi, rfl⟩
  · rintro ⟨i, hi, rfl⟩
    exact ⟨i, hi, rfl⟩

theorem place?_owner_iff {pin : Pin} {p : Placement} (hpin : pin.chip = b.owner) :
    b.place? pin = some p ↔ ∃ i, (b.types.get b.owner).position? pin.port pin.output = some i ∧
      p = b.placeOnEdge i pin.output := by
  unfold place?
  rw [if_pos hpin, Option.map_eq_some_iff]
  simp only [eq_comm]

/-! ## §2. Pins of chips. -/

/-- The pin is at the rim of the chip's body, on the side to which it points, and wires end right in
front of it, outside the body. -/
structure AroundChip (c : Chip) (types : TypeLookup) (p : Placement) : Prop where
  rim : Rotation.AtRim (c.footprint types) (p.anchor - c.pos) p.normal
  standOff : p.standOff = p.anchor + p.normal
  outside : ¬ c.Covers types p.standOff

theorem anchor_placeOnChip (b : Board) (c : Chip) (i : Nat) (output : Bool) :
    (b.placeOnChip c i output).anchor - c.pos
      = (c.rotation.pinOffset (c.size b.types) i output).1 := by
  show c.pos + (c.rotation.pinOffset (c.size b.types) i output).1 - c.pos = _
  ext
  · rw [Vec.sub_x, Vec.add_x]
    omega
  · rw [Vec.sub_y, Vec.add_y]
    omega

theorem aroundChip_placeOnChip (htype : (b.types.get c.type).HasRows) {i : Nat} {output : Bool}
    (hi : i < ((b.types.get c.type).ports output).length) :
    AroundChip c b.types (b.placeOnChip c i output) := by
  have hposition : (i : Int) ≤ (c.size b.types).x := by
    have hlength := htype.positions output
    show (i : Int) ≤ (b.types.get c.type).size.x
    omega
  have hheight : 0 ≤ (c.size b.types).y := by
    have := htype.height
    show 0 ≤ (b.types.get c.type).size.y
    omega
  have hrim : Rotation.AtRim (c.footprint b.types) ((b.placeOnChip c i output).anchor - c.pos)
      (b.placeOnChip c i output).normal := by
    rw [anchor_placeOnChip]
    exact c.rotation.atRim_pinOffset output hposition hheight
  refine ⟨hrim, rfl, fun hcovers => hrim.beyond ?_⟩
  rw [← Vec.add_sub_comm]
  exact Chip.covers_iff.1 hcovers

/-- No two pins of a chip are in the way of each other. -/
theorem placeOnChip_injective (htype : (b.types.get c.type).HasRows) {i j : Nat}
    {output output' : Bool} (hi : i < ((b.types.get c.type).ports output).length)
    (hj : j < ((b.types.get c.type).ports output').length) (hne : (output, i) ≠ (output', j)) :
    (b.placeOnChip c i output).anchor ≠ (b.placeOnChip c j output').anchor ∧
      (b.placeOnChip c i output).standOff ≠ (b.placeOnChip c j output').standOff := by
  have hlast : i ≤ Rotation.lastPosition ∧ j ≤ Rotation.lastPosition := by
    have hlength := htype.positions output
    have hlength' := htype.positions output'
    have hwidth := htype.width.2
    omega
  have hheight : 1 ≤ (c.size b.types).y := htype.height
  constructor
  · intro heq
    obtain ⟨rfl, rfl⟩ :=
      c.rotation.pinOffset_injective hheight hlast.1 hlast.2 (Vec.add_left_cancel heq)
    exact hne rfl
  · intro heq
    change c.pos + (c.rotation.pinOffset (c.size b.types) i output).1
      + (c.rotation.pinOffset (c.size b.types) i output).2
      = c.pos + (c.rotation.pinOffset (c.size b.types) j output').1
      + (c.rotation.pinOffset (c.size b.types) j output').2 at heq
    rw [Vec.add_assoc, Vec.add_assoc] at heq
    obtain ⟨rfl, rfl⟩ :=
      c.rotation.pinOffset_front_injective hheight hlast.1 hlast.2 (Vec.add_left_cancel heq)
    exact hne rfl

/-- The board on which a chip has been turned once more, without being moved. -/
def withTurned (b : Board) (c : Chip) : Board :=
  { b with content := b.content.put (c.rotate 1) }

/-- The pins of a chip turn with it. -/
theorem place?_withTurned (hc : b.content.chip? c.id = some c) (howner : c.id ≠ b.owner)
    {pin : Pin} {p : Placement} (hpin : pin.chip = c.id) (hp : b.place? pin = some p) :
    ∃ p', (b.withTurned c).place? pin = some p' ∧
      p'.anchor - c.pos = ⟨(c.footprint b.types).y - (p.anchor - c.pos).y, (p.anchor - c.pos).x⟩ ∧
      p'.normal = ⟨-p.normal.y, p.normal.x⟩ := by
  obtain ⟨i, hi, rfl⟩ := (place?_chip_iff hc howner hpin).1 hp
  have hturned : (b.withTurned c).content.chip? (c.rotate 1).id = some (c.rotate 1) :=
    (Table.find?_insert b.content.chips c.id c.id (c.rotate 1)).trans (if_pos rfl)
  refine ⟨_, (place?_chip_iff (b := b.withTurned c) hturned howner hpin).2 ⟨i, hi, rfl⟩, ?_, ?_⟩
  · rw [anchor_placeOnChip]
    show ((b.withTurned c).placeOnChip (c.rotate 1) i pin.output).anchor - (c.rotate 1).pos = _
    rw [anchor_placeOnChip, Rotation.pinOffset_eq, Rotation.pinOffset_eq]
    exact c.rotation.transformPoint_rotate _ (c.size b.types)
  · show ((c.rotation.rotate 1).pinOffset (c.size b.types) i pin.output).2
      = Rotation.turnDir (c.rotation.pinOffset (c.size b.types) i pin.output).2
    rw [Rotation.pinOffset_eq, Rotation.pinOffset_eq]
    exact c.rotation.transformDir_rotate _

/-- How the pins of a chip are around it. -/
structure PinsAround (b : Board) (c : Chip) : Prop where
  /-- The pins that have a place are those whose port has a position. -/
  placed : ∀ pin p, pin.chip = c.id → (b.place? pin = some p ↔
    ∃ i, (b.types.get c.type).position? pin.port pin.output = some i ∧
      p = b.placeOnChip c i pin.output)
  around : ∀ pin p, pin.chip = c.id → b.place? pin = some p → AroundChip c b.types p
  /-- Different positions have different places, and the cells in front of them are different. -/
  apart : ∀ output i output' j, i < ((b.types.get c.type).ports output).length →
    j < ((b.types.get c.type).ports output').length → (output, i) ≠ (output', j) →
    (b.placeOnChip c i output).anchor ≠ (b.placeOnChip c j output').anchor ∧
      (b.placeOnChip c i output).standOff ≠ (b.placeOnChip c j output').standOff
  /-- One quarter turn more, and every pin is one quarter turn further. -/
  turned : ∀ pin p, pin.chip = c.id → b.place? pin = some p →
    ∃ p', (b.withTurned c).place? pin = some p' ∧
      p'.anchor - c.pos = ⟨(c.footprint b.types).y - (p.anchor - c.pos).y, (p.anchor - c.pos).x⟩ ∧
      p'.normal = ⟨-p.normal.y, p.normal.x⟩

/-! ## §3. Ports of the type itself. -/

/-- How the ports of the type itself are on the edge of its board. -/
structure PortsOnEdge (b : Board) : Prop where
  /-- The pins that have a place are those whose port has a position. -/
  placed : ∀ pin p, pin.chip = b.owner → (b.place? pin = some p ↔
    ∃ i, (b.types.get b.owner).position? pin.port pin.output = some i ∧
      p = b.placeOnEdge i pin.output)
  onBoard : ∀ pin p, pin.chip = b.owner → b.place? pin = some p →
    p.standOff = p.anchor ∧ b.HasCell p.anchor
  /-- Different positions have different places, and the cells in front of them are different. -/
  apart : ∀ output i output' j, i < ((b.types.get b.owner).ports output).length →
    j < ((b.types.get b.owner).ports output').length → (output, i) ≠ (output', j) →
    (b.placeOnEdge i output).anchor ≠ (b.placeOnEdge j output').anchor ∧
      (b.placeOnEdge i output).standOff ≠ (b.placeOnEdge j output').standOff

theorem hasCell_placeOnEdge (htype : (b.types.get b.owner).HasRows)
    (hsize : b.content.size = (b.types.get b.owner).size) (hscale : 1 ≤ b.settings.scale)
    {i : Nat} {output : Bool} (hi : i < ((b.types.get b.owner).ports output).length)
    (output' : Bool) : b.HasCell (b.placeOnEdge i output').anchor := by
  have hcolumn : (i : Int) ≤ b.content.size.x := by
    have hlength := htype.positions output
    rw [hsize]
    omega
  have hheight : 0 ≤ b.content.size.y := by
    have := htype.height
    rw [hsize]
    omega
  have hbottom : 0 ≤ b.extent.y := Int.mul_nonneg hheight (by omega)
  have hright : (i : Int) * b.settings.scale ≤ b.extent.x :=
    Int.mul_le_mul_of_nonneg_right hcolumn (by omega)
  have hleft : 0 ≤ (i : Int) * b.settings.scale :=
    Int.mul_nonneg (Int.natCast_nonneg i) (by omega)
  refine ⟨⟨hleft, hright⟩, ?_⟩
  show 0 ≤ (if output' then b.extent.y else 0) ∧ (if output' then b.extent.y else 0) ≤ b.extent.y
  split <;> omega

/-- Ports on one edge are in different columns, and the edges are apart. -/
theorem placeOnEdge_injective (hedge : 1 ≤ b.extent.y) (hscale : 1 ≤ b.settings.scale)
    {i j : Nat} {output output' : Bool}
    (heq : (b.placeOnEdge i output).anchor = (b.placeOnEdge j output').anchor) :
    output = output' ∧ i = j := by
  have hcolumn : (i : Int) * b.settings.scale = j * b.settings.scale := congrArg Vec.x heq
  have hrow : (if output then b.extent.y else 0) = (if output' then b.extent.y else 0) :=
    congrArg Vec.y heq
  constructor
  · cases output <;> cases output' <;> simp at hrow ⊢ <;> omega
  · have hij : (i : Int) = j := Int.eq_of_mul_eq_mul_right (by omega) hcolumn
    omega

/-! ## §4. All pins. -/

/-- A chip that is two units wide and has been turned, so that its inputs are on the right. -/
def wideChip : Chip := { Chip.ofPlace ⟨"g"⟩ ⟨"wide"⟩ ⟨3, 3⟩ with rotation := .r1 }

/-- A board of nine rows and columns with the chip on it. -/
def wideBoard : Board where
  owner := ⟨"top"⟩
  content := .ofChips ⟨2, 2⟩ [wideChip] []
  types := TypeTable.lookup (.ofList
    [(⟨"top"⟩, { ChipType.skeleton with
        size := ⟨2, 2⟩, inputs := ["X", "", "Y"], outputs := ["", "Z", ""] }),
     (⟨"wide"⟩, { ChipType.skeleton with
        size := ⟨2, 1⟩, inputs := ["A", "B", "C"], outputs := ["R", "", ""] })])
  settings := {}

end Board

end LogicBoard
