/-
  LogicBoard.Proofs.Edit.Bounds
  ────────────────────────────────
  **CHIPS STAY ON THE BOARD.**

  A chip is brought onto the board when it is placed, moved or turned, with
  the footprint it has then, and all chips are when the board gets another
  size.  A chip that is too large for the board is brought to its near edges.
  So at all times no chip sticks out where there is room for it.

  Main statements:
    • `isOnBoard_clampTo` — what bringing a chip onto the board achieves,
    • `HoldsChips.change` — every change of a content keeps all chips there,
    • `onBoard_run` — during a session all chips are on the board.
-/
import LogicBoard.Proofs.Edit.Operation

namespace LogicBoard

/-! ## §1. Chips on a board. -/

/-- The chip is not beyond the near edges of the board.  Along each axis on which the board has room
for the footprint, it is not beyond the far edge either. -/
structure Chip.IsOnBoard (c : Chip) (grid : Vec) (types : TypeLookup) : Prop where
  left : 0 ≤ c.pos.x
  top : 0 ≤ c.pos.y
  right : (c.footprint types).x ≤ grid.x → (c.pos + c.footprint types).x ≤ grid.x
  bottom : (c.footprint types).y ≤ grid.y → (c.pos + c.footprint types).y ≤ grid.y

/-- A coordinate that is brought into a range, the lower end of which counts if they cross. -/
theorem clamp_bounds (pos extent length : Int) :
    0 ≤ max (min pos (extent - length)) 0 ∧
      (length ≤ extent → max (min pos (extent - length)) 0 + length ≤ extent) := by
  omega

/-- A chip that is brought onto the board is there, wherever it was before. -/
theorem Chip.isOnBoard_clampTo (c : Chip) (grid : Vec) (types : TypeLookup) :
    (c.clampTo grid types).IsOnBoard grid types := by
  obtain ⟨hleft, hright⟩ := clamp_bounds c.pos.x grid.x (c.footprint types).x
  obtain ⟨htop, hbottom⟩ := clamp_bounds c.pos.y grid.y (c.footprint types).y
  exact ⟨hleft, htop, hright, hbottom⟩

namespace Editor

variable {types : TypeLookup} {e e' : Editor}

/-! ## §2. Changes. -/

theorem size_rerouted (e : Editor) (types : TypeLookup) (chip : Option Name) :
    (e.rerouted types chip).content.size = e.content.size := by
  obtain ⟨wires, heq, -⟩ := e.rerouted_frame types chip
  rw [heq]
  rfl

/-- A content always has edges. -/
theorem Change.height (hchange : Change types e e') (h : 0 ≤ e.content.size.y) :
    0 ≤ e'.content.size.y := by
  cases hchange with
  | adjusted _ _ _ | rerouted _ =>
    rw [size_rerouted]
    exact h
  | resized size height =>
    rw [size_rerouted]
    exact height
  | _ => exact h

/-- All chips are on the board. -/
def HoldsChips (types : TypeLookup) (e : Editor) : Prop :=
  ∀ id c, e.content.chip? id = some c → c.IsOnBoard e.gridSize types

theorem holdsChips_start (types : TypeLookup) (owner : Name) (size : Vec)
    (settings : RouteSettings) : HoldsChips types ⟨owner, .ofSize size, settings⟩ := by
  intro id c h
  exact absurd h (by simp [Content.chip?, Content.ofSize, Table.find?_empty])

/-- Wires do not matter. -/
theorem HoldsChips.withWires (h : HoldsChips types e) (wires : List Wire) :
    HoldsChips types (e.withWires wires) := h

theorem HoldsChips.rerouted (h : HoldsChips types e) (chip : Option Name) :
    HoldsChips types (e.rerouted types chip) := by
  obtain ⟨wires, heq, -⟩ := e.rerouted_frame types chip
  rw [heq]
  exact h.withWires wires

/-- A chip that is on the board may take the place of another one. -/
theorem HoldsChips.put (h : HoldsChips types e) {d : Chip} (hd : d.IsOnBoard e.gridSize types) :
    HoldsChips types (e.put d) := by
  intro id c hc
  rw [chip?_put] at hc
  split at hc
  · obtain rfl := Option.some.inj hc
    exact hd
  · exact h id c hc

theorem HoldsChips.remove (h : HoldsChips types e) (id : Name) :
    HoldsChips types ({ e with content := e.content.remove id }.disconnectChip id) := by
  intro id' c hc
  change (e.content.remove id).chip? id' = some c at hc
  rw [chip?_remove] at hc
  split at hc
  · exact absurd hc (by simp)
  · exact h id' c hc

/-- On a board of another size, all chips have been brought onto the board, wherever they were. -/
theorem holdsChips_resized (types : TypeLookup) (e : Editor) (size : Vec) :
    HoldsChips types (e.resized types size) := by
  intro id c hc
  rw [chip?_resized] at hc
  obtain ⟨d, -, rfl⟩ := Option.map_eq_some_iff.1 hc
  exact d.isOnBoard_clampTo _ types

/-- Every change of a content keeps all chips on the board. -/
theorem HoldsChips.change (h : HoldsChips types e) (hchange : Change types e e') :
    HoldsChips types e' := by
  cases hchange with
  | refused => exact h
  | @placed c _ => exact h.put (c.isOnBoard_clampTo _ types)
  | removed id => exact h.remove id
  | @adjusted c d _ _ _ => exact (h.put (d.isOnBoard_clampTo _ types)).rerouted _
  | @filled c hfound constants =>
    -- A chip covers the same cells whatever its constants are.
    obtain ⟨hleft, htop, hright, hbottom⟩ := h c.id c hfound
    exact h.put ⟨hleft, htop, hright, hbottom⟩
  | connected layer _ => exact h.withWires _
  | disconnected keep => exact h.withWires _
  | rerouted chip => exact h.rerouted chip
  | resized size _ => exact (holdsChips_resized types e size).rerouted none

/-! ## §3. Sessions. -/

/-- A session that starts without chips is carried out to its end, and all chips are on the board
then, however it has been resized and they have been moved and turned. -/
theorem onBoard_run (types : TypeLookup) (owner : Name) (size : Vec) (hsize : 0 ≤ size.y)
    (settings : RouteSettings) (hscale : 0 ≤ settings.scale) (ops : List Operation) :
    ∃ e, run types ⟨owner, .ofSize size, settings⟩ ops = .ok e ∧
      ∀ c ∈ e.content.chips.values, c.IsOnBoard e.gridSize types := by
  -- Rerouting needs a board that is not of negative height, so this is carried along.
  let P : Editor → Prop := fun e =>
    (0 ≤ e.content.size.y ∧ 0 ≤ e.settings.scale) ∧ HoldsChips types e
  have hchange : ∀ e e', P e → Change types e e' → P e' := by
    rintro e e' ⟨⟨hheight, hscale⟩, hchips⟩ hchange
    exact ⟨⟨hchange.height hheight, hchange.same.2 ▸ hscale⟩, hchips.change hchange⟩
  obtain ⟨e, hrun, -, hchips⟩ := run_isOk hchange (fun _ he => he.1) ops
    (show P ⟨owner, .ofSize size, settings⟩ from
      ⟨⟨hsize, hscale⟩, holdsChips_start types owner size settings⟩)
  refine ⟨e, hrun, fun c hc => ?_⟩
  obtain ⟨id, hid⟩ := Table.mem_values_iff.1 hc
  exact hchips id c hid

/-! ## §4. A long chip. -/

/-- A type that is three units wide, and a larger one around it. -/
def beamTypes : TypeLookup :=
  TypeTable.lookup (.ofList [(⟨"beam"⟩, { ChipType.skeleton with size := ⟨3, 1⟩ }),
    (⟨"top"⟩, { ChipType.skeleton with size := ⟨5, 5⟩ })])

/-- Two beams are placed outside the board; one is turned upright and moved away, and the board
becomes too low for it. -/
def beamSession : List Operation :=
  [.addChip (.ofPlace ⟨"a"⟩ ⟨"beam"⟩ ⟨99, -4⟩),
   .addChip (.ofPlace ⟨"b"⟩ ⟨"beam"⟩ ⟨-7, 99⟩),
   .rotateChip ⟨"b"⟩ (-1),
   .moveChip ⟨"b"⟩ ⟨50, 50⟩,
   .setSize ⟨4, 1⟩ (by decide)]

/-- The lying beam ends at the right edge.  The upright one, which does not fit any more, begins at
the upper edge. -/
theorem onBoard_beam : ∃ e,
    run beamTypes ⟨⟨"top"⟩, .ofSize ⟨5, 5⟩, ⟨2, 10, 9⟩⟩ beamSession = .ok e ∧
      e.gridSize = ⟨8, 2⟩ ∧ e.content.chips.values.map (·.pos) = [⟨5, 0⟩, ⟨7, 0⟩] ∧
      ∀ c ∈ e.content.chips.values, c.IsOnBoard e.gridSize beamTypes := by
  obtain ⟨e, hrun, hchips⟩ := onBoard_run beamTypes ⟨"top"⟩ ⟨5, 5⟩ (by decide) ⟨2, 10, 9⟩
    (by decide) beamSession
  have hend : (run beamTypes ⟨⟨"top"⟩, .ofSize ⟨5, 5⟩, ⟨2, 10, 9⟩⟩ beamSession).map
      (fun e => (e.gridSize, e.content.chips.values.map (·.pos)))
        = .ok (⟨8, 2⟩, [⟨5, 0⟩, ⟨7, 0⟩]) := by cbv
  rw [hrun] at hend
  obtain ⟨hgrid, hpos⟩ := Prod.mk.inj (Except.ok.inj hend)
  exact ⟨e, hrun, hgrid, hpos, hchips⟩

end Editor

end LogicBoard
