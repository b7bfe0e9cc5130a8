/-
  LogicBoard.Proofs.Routing.Costs
  ────────────────────────────────
  **WHAT EVERY CELL COSTS.**

  The costs for routing a wire are written in three passes: the cells of the
  wires in the way, the cells under chips, and the cells in front of pins.
  After all passes the cost at a place can be told from the content alone.  A
  pass never opens a cell that an earlier one closed, and within a pass all
  writes are alike, so the order of wires, chips and pins does not matter,
  not even where cells share a place.

  Places are numbers of 32 bits.  As long as they can count the cells of the
  board, every cell has the cost that the content says.  On a larger board
  some cell has no cost at all.

  Main statements:
    • `mem_bodyCells` — the cells under a chip,
    • `at?_painted` — what the passes make of a place,
    • `open_of_enterable` — a cell that can be entered is under no chip and on
      no wire in the way,
    • `painted_perm` — the order does not matter,
    • `costMap_exact` — when the costs of all cells are what chips, pins and
      wires say.
-/
import LogicBoard.Proofs.Routing.Route

namespace LogicBoard

/-- The cell is under the chip; the far edges belong to it. -/
def Chip.Covers (c : Chip) (types : TypeLookup) (cell : Vec) : Prop :=
  (c.pos.x ≤ cell.x ∧ cell.x ≤ c.pos.x + (c.footprint types).x) ∧
    (c.pos.y ≤ cell.y ∧ cell.y ≤ c.pos.y + (c.footprint types).y)

namespace Board

variable {b : Board} {cell : Vec} {other : Option Wire}

/-! ## §1. Cells. -/

/-- No pin lacks an edge on a board that has edges. -/
theorem lacksEdge_eq_false (hedge : 0 ≤ b.extent.y) (pin : Pin) : b.lacksEdge pin = false := by
  unfold lacksEdge
  rw [decide_eq_false (by omega), Bool.false_and]

/-- The cell is on the board; the far edges belong to it. -/
def HasCell (b : Board) (cell : Vec) : Prop :=
  (0 ≤ cell.x ∧ cell.x ≤ b.extent.x) ∧ (0 ≤ cell.y ∧ cell.y ≤ b.extent.y)

theorem mem_bodyCells {c : Chip} : cell ∈ b.bodyCells c ↔ c.Covers b.types cell := by
  unfold bodyCells Chip.Covers
  simp only [List.mem_flatMap, List.mem_map, List.mem_range]
  constructor
  · rintro ⟨x, hx, y, hy, rfl⟩
    rw [Vec.add_x, Vec.add_y]
    dsimp only
    omega
  · intro h
    -- The steps from the corner to the cell.
    refine ⟨(cell.x - c.pos.x).toNat, by omega, (cell.y - c.pos.y).toNat, by omega, ?_⟩
    ext
    · rw [Vec.add_x]
      dsimp only
      omega
    · rw [Vec.add_y]
      dsimp only
      omega

/-- The wire is an obstacle for routing another one: it is on the same layer and comes from
elsewhere.  If no wire is routed, all are obstacles. -/
def IsObstacle (w : Wire) (other : Option Wire) : Prop :=
  ∀ o, other = some o → w.layer = o.layer ∧ w.source ≠ o.source

/-- Wires with different sources are different wires anyway. -/
theorem inTheWay_iff {w : Wire} : inTheWay w other = true ↔ IsObstacle w other := by
  unfold inTheWay IsObstacle
  cases other with
  | none => simp
  | some o =>
    simp only [Option.all_some, Bool.and_eq_true, decide_eq_true_eq, Option.some.injEq,
      forall_eq']
    constructor
    · rintro ⟨⟨hlayer, -⟩, hsource⟩
      exact ⟨hlayer, hsource⟩
    · rintro ⟨hlayer, hsource⟩
      exact ⟨⟨hlayer, fun hid => hsource (congrArg WireId.source hid)⟩, hsource⟩

/-- The cell cannot be entered: it is under a chip or on an obstacle. -/
def IsClosed (b : Board) (other : Option Wire) (cell : Vec) : Prop :=
  (∃ c ∈ b.content.chips.values, c.Covers b.types cell) ∨
    ∃ w ∈ b.content.wires, IsObstacle w other ∧ cell ∈ w.path

/-- The cell is in front of a named port of a chip. -/
def IsStandOff (b : Board) (cell : Vec) : Prop :=
  ∃ c ∈ b.content.chips.values, ∃ output, ∃ port ∈ (b.types.get c.type).namedPorts output,
    ∃ p, b.place? (.ofPort c.id output port) = some p ∧ p.standOff = cell

/-! ## §2. Passes. -/

theorem cellsAlong_lt (length : Int) : cellsAlong length < 2 ^ 31 := by
  unfold cellsAlong
  rw [Int32.toInt_ofInt]
  have hlt := Int.bmod_lt (x := length + 1) (m := 2 ^ 32) (by decide)
  norm_num at hlt ⊢
  omega

theorem cellsAlong_eq {length : Int} (hlength : 0 ≤ length) (hlt : length + 1 < 2 ^ 31) :
    (cellsAlong length : Int) = length + 1 := by
  unfold cellsAlong
  rw [Int32.toInt_ofInt_of_le (by omega) (by omega)]
  exact Int.toNat_of_nonneg (by omega)

/-- No cell costs anything. -/
def freeCosts (b : Board) : Grid Nat :=
  .ofSize (cellsAlong b.extent.x) (cellsAlong b.extent.y) 0

/-- The costs if obstacles, chips and pins are painted in the given orders. -/
def painted (b : Board) (obstacles : List Wire) (chips : List Chip) (pins : List Pin) :
    Grid Nat :=
  let blocked := obstacles.flatMap (·.path) ++ chips.flatMap b.bodyCells
  let standOffs := (pins.filterMap b.place?).map (·.standOff)
  standOffs.foldl b.raise (blocked.foldl (fun g cell => g.set cell b.settings.maxCost) b.freeCosts)

theorem costs_eq_painted (b : Board) (other : Option Wire) :
    b.costs other = b.painted (b.content.wires.filter (inTheWay · other)) b.content.chips.values
      b.chipPins := rfl

theorem painted_size (b : Board) (obstacles : List Wire) (chips : List Chip) (pins : List Pin) :
    (b.painted obstacles chips pins).width = b.freeCosts.width ∧
      (b.painted obstacles chips pins).height = b.freeCosts.height := by
  have hblocked := Grid.foldl_size (f := fun g cell => g.set cell b.settings.maxCost)
    (fun g cell => g.modify_size cell _) (obstacles.flatMap (·.path) ++ chips.flatMap b.bodyCells)
    b.freeCosts
  have hall := Grid.foldl_size (f := b.raise) (fun g cell => g.modify_size cell _)
    ((pins.filterMap b.place?).map (·.standOff))
    ((obstacles.flatMap (·.path) ++ chips.flatMap b.bodyCells).foldl
      (fun g cell => g.set cell b.settings.maxCost) b.freeCosts)
  exact ⟨hall.1.trans hblocked.1, hall.2.trans hblocked.2⟩

theorem place?_painted (obstacles : List Wire) (chips : List Chip) (pins : List Pin) (cell : Vec) :
    (b.painted obstacles chips pins).place? cell = b.freeCosts.place? cell :=
  Grid.place?_congr (b.painted_size obstacles chips pins) cell

/-- One of the cells has the place. -/
def Hits (b : Board) (cells : List Vec) (i : Nat) : Prop :=
  ∃ p ∈ cells, b.freeCosts.place? p = some i

instance (b : Board) (cells : List Vec) (i : Nat) : Decidable (b.Hits cells i) :=
  inferInstanceAs (Decidable (∃ p ∈ cells, b.freeCosts.place? p = some i))

/-- A pass over other cells hits the same places if they are the same cells. -/
theorem hits_congr {cells cells' : List Vec} (h : cells.Perm cells') (i : Nat) :
    b.Hits cells i ↔ b.Hits cells' i := by
  unfold Hits
  simp only [h.mem_iff]

/-- Raising a cost a second time changes nothing. -/
theorem at?_foldl_raise (cells : List Vec) (g : Grid Nat) (i : Nat) :
    (cells.foldl b.raise g).at? i = if ∃ p ∈ cells, g.place? p = some i then
      (g.at? i).map fun c => if c < b.settings.maxCost then b.settings.pinCost else c
    else g.at? i := by
  refine Grid.at?_foldl_modify (fun c => ?_) cells g i
  by_cases hc : c < b.settings.maxCost
  · rw [if_pos hc]
    exact ite_self _
  · rw [if_neg hc, if_neg hc]

/-- Closing a cell a second time changes nothing. -/
theorem at?_foldl_close (cells : List Vec) (g : Grid Nat) (i : Nat) :
    (cells.foldl (fun g cell => g.set cell b.settings.maxCost) g).at? i =
      if ∃ p ∈ cells, g.place? p = some i then (g.at? i).map fun _ => b.settings.maxCost
      else g.at? i :=
  Grid.at?_foldl_modify (f := fun _ => b.settings.maxCost) (fun _ => rfl) cells g i

/-- What the passes make of a place. -/
theorem at?_painted (obstacles : List Wire) (chips : List Chip) (pins : List Pin) {i : Nat}
    (hi : i < b.freeCosts.width * b.freeCosts.height) :
    (b.painted obstacles chips pins).at? i =
      if b.Hits (obstacles.flatMap (·.path) ++ chips.flatMap b.bodyCells) i then
        some b.settings.maxCost
      else if b.Hits ((pins.filterMap b.place?).map (·.standOff)) i ∧ 0 < b.settings.maxCost then
        some b.settings.pinCost
      else some 0 := by
  have hplaces : ∀ p, (b.painted obstacles chips []).place? p = b.freeCosts.place? p :=
    place?_painted obstacles chips []
  have hclosed : (b.painted obstacles chips []).at? i =
      if b.Hits (obstacles.flatMap (·.path) ++ chips.flatMap b.bodyCells) i then
        some b.settings.maxCost
      else some 0 := by
    have hfree : b.freeCosts.at? i = some 0 := Grid.at?_ofSize 0 hi
    unfold painted
    rw [List.filterMap_nil, List.map_nil, List.foldl_nil, at?_foldl_close, hfree]
    rfl
  have hraised : (b.painted obstacles chips pins).at? i =
      if b.Hits ((pins.filterMap b.place?).map (·.standOff)) i then
        ((b.painted obstacles chips []).at? i).map fun c =>
          if c < b.settings.maxCost then b.settings.pinCost else c
      else (b.painted obstacles chips []).at? i := by
    unfold Hits
    simp only [← hplaces]
    exact at?_foldl_raise _ (b.painted obstacles chips []) i
  rw [hraised, hclosed]
  by_cases hblocked : b.Hits (obstacles.flatMap (·.path) ++ chips.flatMap b.bodyCells) i
  · rw [if_pos hblocked, if_pos hblocked, Option.map_some, if_neg (Nat.lt_irrefl _)]
    exact ite_self _
  · rw [if_neg hblocked, if_neg hblocked, Option.map_some, ite_and]
    congr 1
    exact apply_ite some _ _ _

/-- Whatever the order, the same costs come of it. -/
theorem painted_perm (b : Board) {obstacles obstacles' : List Wire} {chips chips' : List Chip}
    {pins pins' : List Pin} (hobstacles : obstacles.Perm obstacles') (hchips : chips.Perm chips')
    (hpins : pins.Perm pins') :
    b.painted obstacles chips pins = b.painted obstacles' chips' pins' := by
  obtain ⟨hwidth, hheight⟩ := b.painted_size obstacles chips pins
  obtain ⟨hwidth', hheight'⟩ := b.painted_size obstacles' chips' pins'
  refine Grid.ext_at? ⟨hwidth.trans hwidth'.symm, hheight.trans hheight'.symm⟩ fun i hi => ?_
  rw [hwidth, hheight] at hi
  rw [at?_painted _ _ _ hi, at?_painted _ _ _ hi]
  simp only [hits_congr ((hobstacles.flatMap_right _).append (hchips.flatMap_right _)),
    hits_congr ((hpins.filterMap _).map _)]

/-! ## §3. Obstacles and stand-offs. -/

theorem mem_blocked_iff :
    cell ∈ (b.content.wires.filter (inTheWay · other)).flatMap (·.path) ++
      b.content.chips.values.flatMap b.bodyCells ↔ b.IsClosed other cell := by
  unfold IsClosed
  simp only [List.mem_append, List.mem_flatMap, List.mem_filter, mem_bodyCells, inTheWay_iff,
    and_assoc]
  exact Or.comm

theorem mem_chipPins_iff {pin : Pin} : pin ∈ b.chipPins ↔ ∃ c ∈ b.content.chips.values,
    ∃ output, ∃ port ∈ (b.types.get c.type).namedPorts output, .ofPort c.id output port = pin := by
  simp only [chipPins, pinsOf, List.mem_flatMap, List.mem_map, List.mem_cons, List.not_mem_nil,
    or_false]
  constructor
  · rintro ⟨c, hc, output, -, port, hport, heq⟩
    exact ⟨c, hc, output, port, hport, heq⟩
  · rintro ⟨c, hc, output, port, hport, heq⟩
    exact ⟨c, hc, output, by cases output <;> simp, port, hport, heq⟩

theorem mem_standOffs_iff :
    cell ∈ (b.chipPins.filterMap b.place?).map (·.standOff) ↔ b.IsStandOff cell := by
  unfold IsStandOff
  simp only [List.mem_map, List.mem_filterMap, mem_chipPins_iff]
  constructor
  · rintro ⟨p, ⟨_, ⟨c, hc, output, port, hport, rfl⟩, hp⟩, hcell⟩
    exact ⟨c, hc, output, port, hport, p, hp, hcell⟩
  · rintro ⟨c, hc, output, port, hport, p, hp, hcell⟩
    exact ⟨p, ⟨_, ⟨c, hc, output, port, hport, rfl⟩, hp⟩, hcell⟩

/-- The place of a cell with costs. -/
theorem exists_place_of_get? {n : Nat} (h : (b.costs other).get? cell = some n) :
    ∃ i, b.freeCosts.place? cell = some i ∧ i < b.freeCosts.width * b.freeCosts.height ∧
      (b.costs other).at? i = some n := by
  obtain ⟨i, hi⟩ := Grid.contains_iff.1 (Grid.contains_of_get? h)
  rw [Grid.get?_eq hi] at h
  have hplace : b.freeCosts.place? cell = some i := (place?_painted _ _ _ cell).symm.trans hi
  exact ⟨i, hplace, Grid.lt_of_place? hplace, h⟩

/-- A cell that can be entered is under no chip and on no wire in the way. -/
theorem open_of_enterable (h : Search.Enterable (b.costs other) b.settings.maxCost cell) :
    (∀ c ∈ b.content.chips.values, ¬ c.Covers b.types cell) ∧
      ∀ w ∈ b.content.wires, inTheWay w other = true → cell ∉ w.path := by
  obtain ⟨n, hn, hlt⟩ := h
  obtain ⟨i, hplace, hi, hat⟩ := exists_place_of_get? hn
  have hopen : ¬ b.IsClosed other cell := by
    intro hclosed
    rw [costs_eq_painted, at?_painted _ _ _ hi, if_pos ⟨cell, mem_blocked_iff.2 hclosed, hplace⟩]
      at hat
    exact Nat.lt_irrefl _ (Option.some.inj hat ▸ hlt)
  exact ⟨fun c hc hcovers => hopen (Or.inl ⟨c, hc, hcovers⟩),
    fun w hw hway hpath => hopen (Or.inr ⟨w, hw, inTheWay_iff.1 hway, hpath⟩)⟩

/-! ## §4. All costs. -/

/-- The costs for routing a wire are what the content says. -/
structure IsCostMap (b : Board) (other : Option Wire) (costs : Grid Nat) : Prop where
  width : (costs.width : Int) = b.content.size.x * b.settings.scale + 1
  height : (costs.height : Int) = b.content.size.y * b.settings.scale + 1
  closed : ∀ cell, b.HasCell cell → b.IsClosed other cell →
    costs.get? cell = some b.settings.maxCost
  inFront : ∀ cell, b.HasCell cell → ¬ b.IsClosed other cell → b.IsStandOff cell →
    costs.get? cell = some b.settings.pinCost
  free : ∀ cell, b.HasCell cell → ¬ b.IsClosed other cell → ¬ b.IsStandOff cell →
    costs.get? cell = some 0
  beyond : ∀ cell, ¬ b.HasCell cell → costs.get? cell = none
  /-- The order in which wires, chips and pins are gone through does not matter. -/
  unordered : ∀ (wires : List Wire) (chips : List Chip) (pins : List Pin),
    wires.Perm b.content.wires → chips.Perm b.content.chips.values → pins.Perm b.chipPins →
    b.painted (wires.filter (inTheWay · other)) chips pins = costs

/-- Every cell of the board has some cost if its costs are what the content says. -/
theorem IsCostMap.contains {costs : Grid Nat} (h : IsCostMap b other costs)
    (hcell : b.HasCell cell) : costs.contains cell = true := by
  by_cases hclosed : b.IsClosed other cell
  · exact Grid.contains_of_get? (h.closed cell hcell hclosed)
  · by_cases hstandOff : b.IsStandOff cell
    · exact Grid.contains_of_get? (h.inFront cell hcell hclosed hstandOff)
    · exact Grid.contains_of_get? (h.free cell hcell hclosed hstandOff)

/-- Numbers of 32 bits can count the cells along each edge, and counting all cells from zero they do
not wrap around. -/
structure IsCountable (b : Board) : Prop where
  columns : b.content.size.x * b.settings.scale + 1 < 2 ^ 31
  rows : b.content.size.y * b.settings.scale + 1 < 2 ^ 31
  cells : (b.content.size.x * b.settings.scale + 1) * (b.content.size.y * b.settings.scale + 1)
    ≤ 2 ^ 31

section Countable

variable (hright : 0 ≤ b.extent.x) (hbottom : 0 ≤ b.extent.y)
include hright hbottom

theorem covers_freeCosts (hcolumns : b.extent.x + 1 < 2 ^ 31) (hrows : b.extent.y + 1 < 2 ^ 31) :
    b.freeCosts.covers cell = true ↔ b.HasCell cell := by
  have hwidth : (b.freeCosts.width : Int) = b.extent.x + 1 := cellsAlong_eq hright hcolumns
  have hheight : (b.freeCosts.height : Int) = b.extent.y + 1 := cellsAlong_eq hbottom hrows
  rw [Grid.covers_iff, hwidth, hheight]
  unfold HasCell
  omega

theorem IsCountable.count_le (h : b.IsCountable) :
    b.freeCosts.width * b.freeCosts.height ≤ 2 ^ 31 := by
  have hcells : (b.extent.x + 1) * (b.extent.y + 1) ≤ 2 ^ 31 := h.cells
  rw [← cellsAlong_eq hright h.columns, ← cellsAlong_eq hbottom h.rows] at hcells
  exact_mod_cast hcells

/-- What the passes make of a cell. -/
theorem IsCountable.get?_painted (h : b.IsCountable) (obstacles : List Wire) (chips : List Chip)
    (pins : List Pin) (hcell : b.HasCell cell) :
    (b.painted obstacles chips pins).get? cell =
      if cell ∈ obstacles.flatMap (·.path) ++ chips.flatMap b.bodyCells then
        some b.settings.maxCost
      else if cell ∈ (pins.filterMap b.place?).map (·.standOff) ∧ 0 < b.settings.maxCost then
        some b.settings.pinCost
      else some 0 := by
  have hcount := h.count_le hright hbottom
  have hplace := Grid.place?_eq hcount ((covers_freeCosts hright hbottom h.columns h.rows).2 hcell)
  -- A pass hits the place of the cell only where it writes the cell itself.
  have hhits : ∀ cells, b.Hits cells (cell.y * b.freeCosts.width + cell.x).toNat ↔ cell ∈ cells := by
    intro cells
    constructor
    · rintro ⟨p, hp, hi⟩
      rwa [← Grid.place?_inj hcount hi hplace]
    · intro hmem
      exact ⟨cell, hmem, hplace⟩
  rw [Grid.get?_eq ((place?_painted obstacles chips pins cell).trans hplace),
    at?_painted _ _ _ (Grid.lt_of_place? hplace)]
  simp only [hhits]

/-- If its cells can be counted, the costs of a board are what the content says. -/
theorem IsCountable.isCostMap (h : b.IsCountable)
    (hcosts : b.settings.pinCost < b.settings.maxCost) (other : Option Wire) :
    IsCostMap b other (b.costs other) := by
  have hget : ∀ cell, b.HasCell cell → _ := fun cell hcell =>
    h.get?_painted hright hbottom (b.content.wires.filter (inTheWay · other))
      b.content.chips.values b.chipPins hcell
  obtain ⟨hcolumns, hrows⟩ := b.painted_size (b.content.wires.filter (inTheWay · other))
    b.content.chips.values b.chipPins
  rw [costs_eq_painted]
  constructor
  case width =>
    rw [hcolumns]
    exact cellsAlong_eq hright h.columns
  case height =>
    rw [hrows]
    exact cellsAlong_eq hbottom h.rows
  case closed =>
    intro cell hcell hclosed
    rw [hget cell hcell, if_pos (mem_blocked_iff.2 hclosed)]
  case inFront =>
    intro cell hcell hopen hstandOff
    rw [hget cell hcell, if_neg (mt mem_blocked_iff.1 hopen),
      if_pos ⟨mem_standOffs_iff.2 hstandOff, Nat.zero_lt_of_lt hcosts⟩]
  case free =>
    intro cell hcell hopen hstandOff
    rw [hget cell hcell, if_neg (mt mem_blocked_iff.1 hopen),
      if_neg fun hand => hstandOff (mem_standOffs_iff.1 hand.1)]
  case beyond =>
    intro cell hcell
    rw [Grid.get?_eq_none_iff, ← Bool.not_eq_true]
    intro hcontains
    have hcovers := Grid.covers_of_contains hcontains
    rw [Grid.covers_congr ⟨hcolumns, hrows⟩] at hcovers
    exact hcell ((covers_freeCosts hright hbottom h.columns h.rows).1 hcovers)
  case unordered =>
    intro wires chips pins hwires hchips hpins
    exact b.painted_perm (hwires.filter _) hchips hpins

/-- If the costs of a board are what the content says, its cells can be counted. -/
theorem IsCostMap.isCountable (h : IsCostMap b other (b.costs other)) : b.IsCountable := by
  obtain ⟨hleft, htop⟩ := b.painted_size (b.content.wires.filter (inTheWay · other))
    b.content.chips.values b.chipPins
  have hwidth : (cellsAlong b.extent.x : Int) = b.extent.x + 1 :=
    (congrArg Nat.cast hleft).symm.trans h.width
  have hheight : (cellsAlong b.extent.y : Int) = b.extent.y + 1 :=
    (congrArg Nat.cast htop).symm.trans h.height
  have hcolumns := cellsAlong_lt b.extent.x
  have hrows := cellsAlong_lt b.extent.y
  have hcolumns' : b.extent.x + 1 < 2 ^ 31 := by omega
  have hrows' : b.extent.y + 1 < 2 ^ 31 := by omega
  refine ⟨hcolumns', hrows', ?_⟩
  show (b.extent.x + 1) * (b.extent.y + 1) ≤ 2 ^ 31
  rw [← hwidth, ← hheight]
  by_contra hmany
  -- Otherwise some cell has no place, and so no cost.
  obtain ⟨cell, hcovers, hplace⟩ := Grid.exists_place?_eq_none (g := b.freeCosts)
    (by exact_mod_cast Int.not_le.1 hmany)
  have hcell := (covers_freeCosts hright hbottom hcolumns' hrows').1 hcovers
  obtain ⟨i, hi⟩ := Grid.contains_iff.1 (h.contains hcell)
  rw [costs_eq_painted, place?_painted, hplace] at hi
  exact absurd hi (by simp)

end Countable

/-- A board with edges has costs. -/
theorem costMap_eq_ok (hheight : 0 ≤ b.extent.y) (other : Option Wire) :
    b.costMap other = .ok (b.costs other) := by
  unfold costMap
  rw [if_neg]
  rw [Bool.not_eq_true, List.any_eq_false]
  intro pin _
  simp [lacksEdge_eq_false hheight pin]

/-- A board of twenty cells with a chip and four wires: one that waits to be routed, one in its way
across the cell in front of the chip's input, one on another layer and one from the same source. -/
def crowdedBoard : Board where
  owner := ⟨"top"⟩
  content := .ofChips ⟨4, 3⟩ [.ofPlace ⟨"n"⟩ ⟨"not"⟩ ⟨1, 1⟩]
    [.between ⟨⟨"n"⟩, true, "R"⟩ ⟨⟨"top"⟩, true, "R"⟩ 0,
     { Wire.between ⟨⟨"top"⟩, false, "A"⟩ ⟨⟨"n"⟩, false, "A"⟩ 0 with
        path := [⟨3, 1⟩, ⟨3, 0⟩, ⟨2, 0⟩, ⟨1, 0⟩, ⟨1, -1⟩] },
     { Wire.between ⟨⟨"top"⟩, false, "B"⟩ ⟨⟨"n"⟩, false, "A"⟩ 1 with path := [⟨4, 0⟩] },
     { Wire.between ⟨⟨"n"⟩, true, "R"⟩ ⟨⟨"top"⟩, true, "S"⟩ 0 with path := [⟨4, 3⟩] }]
  types := TypeTable.lookup (.ofList
    [(⟨"not"⟩, { ChipType.skeleton with inputs := ["A", ""] })])
  settings := ⟨1, 10, 9⟩

/-- A board of more than two thousand million cells with an inverter near the bottom. -/
def vastBoard : Board where
  owner := ⟨"top"⟩
  content := .ofChips ⟨1000, 1000⟩ [.ofPlace ⟨"n"⟩ ⟨"not"⟩ ⟨4, 46000⟩] []
  types := TypeTable.lookup (.ofList [(⟨"not"⟩, ChipType.skeleton)])
  settings := ⟨47, 10, 9⟩

end Board

end LogicBoard
