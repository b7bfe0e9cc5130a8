/-
  LogicBoard.Proofs.Routing.Extent
  ────────────────────────────────
  **WHERE WIRES CAN BE LED.**

  A path that was searched for stays on the board.  A path that needs no
  search has the cells in front of two pins, which are on the board or at
  most one cell beyond a chip.  So if all chips are on a board that fits into
  numbers of 32 bits, routing gives paths that can be recorded.

  Main statements:
    • `isRecordable_standOff` — the cell in front of a pin,
    • `isRecordable_routeOf` — the cells of a route,
    • `isRecordable_rerouted` — the wires of a board that was rerouted.
-/
import LogicBoard.Proofs.Record.RoundTrip
import LogicBoard.Proofs.Routing.Pins
import LogicBoard.Proofs.Routing.Reroute

namespace LogicBoard

/-! ## §1. Boards that fit. -/

namespace Board

/-- All of the board can be recorded: its far corner and the cell beyond it have coordinates of 32
bits, and its chips are on it. -/
structure Fits (b : Board) : Prop where
  types : ∀ name, (b.types.get name).IsCanonical
  owner : (b.types.get b.owner).size = b.content.size
  chips : ∀ c ∈ b.content.chips.values, c.clampTo b.extent b.types = c
  extent : b.extent.IsRecordable
  beyond : (b.extent + .one).IsRecordable

variable {b : Board}

theorem Fits.withWires (h : b.Fits) (wires : List Wire) : (b.withWires wires).Fits :=
  ⟨h.types, h.owner, h.chips, h.extent, h.beyond⟩

/-- A number of 32 bits stretched less far is one as well. -/
theorem isInt32_mul_of_le {n m k : Int} (hn : 0 ≤ n) (hnm : n ≤ m) (h : IsInt32 (m * k)) :
    IsInt32 (n * k) := by
  unfold IsInt32 at h ⊢
  rcases Int.le_total 0 k with hk | hk
  · have hlow : 0 ≤ n * k := Int.mul_nonneg hn hk
    have hhigh : n * k ≤ m * k := Int.mul_le_mul_of_nonneg_right hnm hk
    omega
  · have hlow : m * k ≤ n * k := Int.mul_le_mul_of_nonpos_right hnm hk
    have hhigh : n * k ≤ 0 := Int.mul_nonpos_of_nonneg_of_nonpos hn hk
    omega

theorem Fits.standOff_placeOnEdge (h : b.Fits) {port : String} {output : Bool} {position : Nat}
    (hposition : (b.types.get b.owner).position? port output = some position) (output' : Bool) :
    (b.placeOnEdge position output').standOff.IsRecordable := by
  have hwidth : (position : Int) ≤ b.content.size.x := by
    have hlt := ChipType.lt_of_position? hposition
    have hlength := (h.types b.owner).positions output
    rw [h.owner] at hlength
    omega
  obtain ⟨hx, hy⟩ := h.extent
  constructor
  · exact isInt32_mul_of_le (Int.natCast_nonneg position) hwidth hx
  · show IsInt32 (min (max ((if output' then b.extent.y else 0) + if output' then 1 else -1) 0)
      b.extent.y)
    unfold IsInt32 at hy ⊢
    split <;> omega

theorem Fits.standOff_placeOnChip (h : b.Fits) {c : Chip} (hc : c ∈ b.content.chips.values)
    {port : String} {output : Bool} {position : Nat}
    (hposition : (b.types.get c.type).position? port output = some position) :
    (b.placeOnChip c position output).standOff.IsRecordable := by
  have htype := h.types c.type
  have hwidth : (position : Int) ≤ (c.size b.types).x := by
    have hlt := ChipType.lt_of_position? hposition
    have hlength := htype.positions output
    show (position : Int) ≤ (b.types.get c.type).size.x
    omega
  have hheight : 0 ≤ (c.size b.types).y := by
    have := htype.height
    show 0 ≤ (b.types.get c.type).size.y
    omega
  have hrim := c.rotation.atRim_pinOffset output hwidth hheight
  obtain ⟨hdirx, hdiry⟩ := hrim.step
  obtain ⟨hoffx, hoffy, -⟩ := hrim
  -- The chip is on the board or, if there is no room for it, in the corner.
  have hpos : c.pos.clampVec .zero (b.extent - c.footprint b.types) = c.pos :=
    congrArg Chip.pos (h.chips c hc)
  have hfoot : (c.footprint b.types).x ≤ 1000 ∧ (c.footprint b.types).y ≤ 1000 := by
    obtain ⟨hw, hh⟩ := And.intro htype.width htype.height
    unfold Chip.footprint Rotation.footprint Chip.size
    split
    · exact ⟨hh.2, hw.2⟩
    · exact ⟨hw.2, hh.2⟩
  obtain ⟨hx, hy⟩ := h.beyond
  have hposx : max (min c.pos.x (b.extent.x - (c.footprint b.types).x)) 0 = c.pos.x :=
    congrArg Vec.x hpos
  have hposy : max (min c.pos.y (b.extent.y - (c.footprint b.types).y)) 0 = c.pos.y :=
    congrArg Vec.y hpos
  have hfootprint : c.rotation.footprint (c.size b.types) = c.footprint b.types := rfl
  rw [hfootprint] at hoffx hoffy
  unfold IsInt32 at hx hy
  rw [Vec.add_x] at hx
  rw [Vec.add_y] at hy
  have hone : Vec.one.x = 1 ∧ Vec.one.y = 1 := ⟨rfl, rfl⟩
  constructor
  · show IsInt32 (c.pos.x + (c.rotation.pinOffset (c.size b.types) position output).1.x
      + (c.rotation.pinOffset (c.size b.types) position output).2.x)
    unfold IsInt32
    omega
  · show IsInt32 (c.pos.y + (c.rotation.pinOffset (c.size b.types) position output).1.y
      + (c.rotation.pinOffset (c.size b.types) position output).2.y)
    unfold IsInt32
    omega

/-- The cell in front of a pin. -/
theorem Fits.isRecordable_standOff (h : b.Fits) {pin : Pin} {p : Placement}
    (hp : b.place? pin = some p) : p.standOff.IsRecordable := by
  unfold place? at hp
  split at hp
  · obtain ⟨position, hposition, rfl⟩ := Option.map_eq_some_iff.1 hp
    exact h.standOff_placeOnEdge hposition pin.output
  · simp only [Option.bind_eq_bind, Option.bind_eq_some_iff, pure, Option.some.injEq] at hp
    obtain ⟨c, hc, position, hposition, rfl⟩ := hp
    exact h.standOff_placeOnChip (Content.chip?_eq_some_iff.1 hc).1 hposition

/-! ## §2. Routes. -/

/-- A cell with a cost can be recorded: the edges are numbers of 32 bits. -/
theorem isRecordable_of_contains {other : Option Wire} {cell : Vec}
    (hcell : (b.costs other).contains cell = true) : cell.IsRecordable := by
  have hcovers := Grid.covers_of_contains hcell
  rw [costs_eq_painted, Grid.covers_congr (b.painted_size _ _ _)] at hcovers
  obtain ⟨hx, hy⟩ := Grid.covers_iff.1 hcovers
  have hwidth : b.freeCosts.width < 2 ^ 31 := cellsAlong_lt b.extent.x
  have hheight : b.freeCosts.height < 2 ^ 31 := cellsAlong_lt b.extent.y
  constructor
  · unfold IsInt32
    omega
  · unfold IsInt32
    omega

/-- The cells of a route. -/
theorem Fits.isRecordable_routeOf (h : b.Fits) (w : Wire) :
    ∀ cell ∈ (b.routeOf w).path, cell.IsRecordable := by
  intro cell hcell
  unfold routeOf at hcell
  split at hcell
  · rename_i source target hsource htarget
    split at hcell
    · -- The path has one or both of the cells in front of the pins.
      rename_i path hdirect
      have hends : cell = source.standOff ∨ cell = target.standOff := by
        unfold direct? at hdirect
        dsimp only at hdirect
        split at hdirect
        · obtain rfl := Option.some.inj hdirect
          exact Or.inl (List.mem_singleton.1 hcell)
        · split at hdirect
          · obtain rfl := Option.some.inj hdirect
            simpa [Route.path] using hcell
          · exact absurd hdirect (by simp)
      rcases hends with rfl | rfl
      · exact h.isRecordable_standOff hsource
      · exact h.isRecordable_standOff htarget
    · split at hcell
      · rename_i path hsearch
        have hpath := Search.cheapestPath?_eq_some hsearch
        exact isRecordable_of_contains (hpath.1.onGrid cell hcell)
      · exact absurd hcell (by simp [Route.path])
  · exact absurd hcell (by simp [Route.path])

/-- What is routed again can be recorded if it could be before. -/
theorem Fits.isRecordable_rerouted (h : b.Fits) (hwires : ∀ w ∈ b.content.wires, w.IsRecordable)
    (chip : Option Name) : ∀ w ∈ (b.rerouted chip).content.wires, w.IsRecordable := by
  have hall : (b.rerouted chip).Fits ∧ ∀ w ∈ (b.rerouted chip).content.wires, w.IsRecordable := by
    unfold rerouted
    refine List.foldlRecOn _ turned (motive := fun c => c.Fits ∧
      ∀ w ∈ c.content.wires, w.IsRecordable) ⟨h.withWires _, ?_⟩ ?_
    · -- Taking a path away leaves nothing on it to be recorded.
      refine List.forall_mem_map.2 fun w hw => ?_
      have hrecord := hwires w hw
      split
      · exact ⟨hrecord.layer, by simp [Wire.cleared], hrecord.source, hrecord.target⟩
      · exact hrecord
    · intro c hc i _
      refine ⟨hc.1.withWires _, ?_⟩
      cases hi : c.content.wires[i]? with
      | none =>
        rw [turned_of_none hi]
        exact hc.2
      | some w =>
        rw [turned_of_some hi]
        intro v hv
        rcases List.mem_or_eq_of_mem_set hv with hold | rfl
        · exact hc.2 v hold
        · have hrecord := hc.2 w (List.mem_of_getElem? hi)
          exact ⟨hrecord.layer, hc.1.isRecordable_routeOf w, hrecord.source, hrecord.target⟩
  exact hall.2

end Board

end LogicBoard
