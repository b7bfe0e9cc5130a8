/-
  LogicBoard.Proofs.Routing.Route
  ────────────────────────────────
  **WHAT COMES OF ROUTING A WIRE.**

  A wire gets a path between the cells in front of its pins whenever there is
  one, and a cheapest one if it had to be searched for.  On a board with
  edges the cell in front of a pin is next to the pin, or the pin itself if
  it is on the edge, so that pins which need no search are neighbours.

  Main statements:
    • `manhattan_standOff` — how far a pin is from the cell in front of it,
    • `isRouted_route` — every wire is routed as well as can be.
-/
import LogicBoard.Proofs.Routing.Search
import LogicBoard.Routing.Router

namespace LogicBoard

/-! ## §1. Distances. -/

theorem Vec.manhattan_comm (a b : Vec) : a.manhattan b = b.manhattan a := by
  unfold Vec.manhattan
  omega

theorem Vec.manhattan_add (a d : Vec) : a.manhattan (a + d) = Vec.zero.manhattan d := by
  unfold Vec.manhattan Vec.zero
  simp only [Vec.add_x, Vec.add_y]
  omega

/-- A quarter turn keeps the length of a direction. -/
theorem Rotation.manhattan_turnedDir (n : Nat) (d : Vec) :
    Vec.zero.manhattan (Rotation.turnedDir n d) = Vec.zero.manhattan d := by
  induction n generalizing d with
  | zero => rfl
  | succ n ih =>
    unfold Rotation.turnedDir
    rw [ih]
    unfold Rotation.turnDir Vec.manhattan Vec.zero
    dsimp only
    omega

namespace Board

/-! ## §2. Pins. -/

/-- The pins need no search: one cell is in front of both, or one of them is in front of the
other. -/
def Facing (source target : Placement) : Prop :=
  source.standOff = target.standOff ∨ source.anchor = target.standOff ∨
    target.anchor = source.standOff

variable {b : Board}

theorem standOff_placeOnEdge (hedge : 0 ≤ b.extent.y) (position : Nat) (output : Bool) :
    (b.placeOnEdge position output).standOff = (b.placeOnEdge position output).anchor := by
  unfold placeOnEdge
  dsimp only
  ext
  · rfl
  · cases output
    · simp only [Bool.false_eq_true, if_false]
      omega
    · simp only [if_true]
      omega

theorem manhattan_placeOnChip (c : Chip) (position : Nat) (output : Bool) :
    (b.placeOnChip c position output).anchor.manhattan
      (b.placeOnChip c position output).standOff = 1 := by
  have hunit : Vec.zero.manhattan (if output then ⟨0, 1⟩ else ⟨0, -1⟩) = 1 := by
    cases output <;> rfl
  -- The direction away from the chip is a turned unit step.
  show (b.placeOnChip c position output).anchor.manhattan
    ((b.placeOnChip c position output).anchor + (b.placeOnChip c position output).normal) = 1
  rw [Vec.manhattan_add]
  exact (Rotation.manhattan_turnedDir c.rotation.turns _).trans hunit

/-- The cell in front of a pin is the pin itself or next to it. -/
theorem manhattan_standOff (hedge : 0 ≤ b.extent.y) {pin : Pin} {p : Placement}
    (h : b.place? pin = some p) : p.standOff = p.anchor ∨ p.anchor.manhattan p.standOff = 1 := by
  unfold place? at h
  split at h
  · -- A port of the type itself is on an edge, a pin of a chip inside.
    obtain ⟨position, -, rfl⟩ := Option.map_eq_some_iff.1 h
    exact Or.inl (standOff_placeOnEdge hedge position pin.output)
  · simp only [Option.bind_eq_bind, Option.bind_eq_some_iff, pure, Option.some.injEq] at h
    obtain ⟨c, -, position, -, rfl⟩ := h
    exact Or.inr (manhattan_placeOnChip c position pin.output)

theorem direct?_eq_none_iff {source target : Placement} :
    direct? source target = none ↔ ¬ Facing source target := by
  unfold direct? Facing
  dsimp only
  split
  · rename_i heq
    exact iff_of_false (by simp) fun h => h (Or.inl heq)
  · rename_i hne
    split
    · rename_i hanchor
      rw [Bool.or_eq_true, decide_eq_true_iff, decide_eq_true_iff] at hanchor
      exact iff_of_false (by simp) fun h => h (Or.inr hanchor)
    · rename_i hanchor
      rw [Bool.or_eq_true, decide_eq_true_iff, decide_eq_true_iff] at hanchor
      exact iff_of_true rfl fun h => h.elim hne hanchor

/-- The route between pins that need no search. -/
theorem direct?_eq_some {source target : Placement} {path : List Vec}
    (hsource : source.standOff = source.anchor ∨ source.anchor.manhattan source.standOff = 1)
    (htarget : target.standOff = target.anchor ∨ target.anchor.manhattan target.standOff = 1)
    (h : direct? source target = some path) :
    (source.standOff = target.standOff ∧ path = [source.standOff]) ∨
      (source.standOff.manhattan target.standOff = 1 ∧
        path = [source.standOff, target.standOff]) := by
  unfold direct? at h
  dsimp only at h
  split at h
  · rename_i heq
    exact Or.inl ⟨heq, (Option.some.inj h).symm⟩
  · rename_i hne
    split at h
    · rename_i hanchor
      refine Or.inr ⟨?_, (Option.some.inj h).symm⟩
      -- A pin that is in front of itself cannot be in front of another one as well.
      rw [Bool.or_eq_true, decide_eq_true_iff, decide_eq_true_iff] at hanchor
      rcases hanchor with hanchor | hanchor
      · rw [← hanchor] at hne ⊢
        rw [Vec.manhattan_comm]
        exact hsource.resolve_left hne
      · rw [← hanchor] at hne ⊢
        exact htarget.resolve_left fun heq => hne heq.symm
    · exact absurd h (by simp)

/-! ## §3. Wires. -/

/-- What is to come of routing a wire. -/
structure IsRouted (b : Board) (w : Wire) (r : Route) : Prop where
  /-- A path that was searched for is a cheapest one. -/
  searched : ∀ path, r = .searched path → ∃ source target,
    b.place? w.source = some source ∧ b.place? w.target = some target ∧
      Search.IsCheapestPath (b.costs (some w)) b.settings.maxCost source.standOff target.standOff
        path
  /-- A path that was not searched for is one cell, or two neighbouring ones. -/
  direct : ∀ path, r = .direct path → ∃ source target,
    b.place? w.source = some source ∧ b.place? w.target = some target ∧
      ((source.standOff = target.standOff ∧ path = [source.standOff]) ∨
        (source.standOff.manhattan target.standOff = 1 ∧
          path = [source.standOff, target.standOff]))
  /-- Routing fails only if there is no pin or no path. -/
  failed : r = .failed ↔ b.place? w.source = none ∨ b.place? w.target = none ∨
    ∃ source target, b.place? w.source = some source ∧ b.place? w.target = some target ∧
      ¬ Facing source target ∧
      ¬ ∃ path, Search.IsPath (b.costs (some w)) b.settings.maxCost source.standOff
        target.standOff path

/-- When both pins exist, a route fails by what is in front of them. -/
theorem pins_iff {w : Wire} {source target : Placement} (hsource : b.place? w.source = some source)
    (htarget : b.place? w.target = some target) {P : Placement → Placement → Prop} :
    (b.place? w.source = none ∨ b.place? w.target = none ∨
      ∃ s t, b.place? w.source = some s ∧ b.place? w.target = some t ∧ P s t) ↔
    P source target := by
  rw [hsource, htarget]
  constructor
  · rintro (h | h | ⟨s, t, hs, ht, hp⟩)
    · exact absurd h (by simp)
    · exact absurd h (by simp)
    · obtain rfl := Option.some.inj hs
      obtain rfl := Option.some.inj ht
      exact hp
  · intro hp
    exact Or.inr (Or.inr ⟨source, target, rfl, rfl, hp⟩)

theorem isRouted_routeOf (hedge : 0 ≤ b.extent.y) (w : Wire) : IsRouted b w (b.routeOf w) := by
  unfold routeOf
  cases hsource : b.place? w.source with
  | none =>
    exact ⟨fun _ h => absurd h (by simp), fun _ h => absurd h (by simp),
      iff_of_true rfl (Or.inl hsource)⟩
  | some source =>
    cases htarget : b.place? w.target with
    | none =>
      exact ⟨fun _ h => absurd h (by simp), fun _ h => absurd h (by simp),
        iff_of_true rfl (Or.inr (Or.inl htarget))⟩
    | some target =>
      dsimp only
      cases hdirect : direct? source target with
      | some path =>
        have hpath := direct?_eq_some (manhattan_standOff hedge hsource)
          (manhattan_standOff hedge htarget) hdirect
        have hfacing : Facing source target := by
          by_contra hnot
          rw [direct?_eq_none_iff.2 hnot] at hdirect
          exact absurd hdirect (by simp)
        refine ⟨fun _ h => absurd h (by simp), fun other h => ?_, iff_of_false (by simp) ?_⟩
        · obtain rfl := Route.direct.inj h
          exact ⟨source, target, hsource, htarget, hpath⟩
        · rw [pins_iff hsource htarget]
          exact fun h => h.1 hfacing
      | none =>
        have hfacing := direct?_eq_none_iff.1 hdirect
        have hne : source.standOff ≠ target.standOff := fun heq => hfacing (Or.inl heq)
        dsimp only
        cases hsearch : cheapestPath? (b.costs (some w)) b.settings.maxCost source.standOff
            target.standOff with
        | some path =>
          have hpath := Search.cheapestPath?_eq_some hsearch
          refine ⟨fun other h => ?_, fun _ h => absurd h (by simp), iff_of_false (by simp) ?_⟩
          · obtain rfl := Route.searched.inj h
            exact ⟨source, target, hsource, htarget, hpath⟩
          · rw [pins_iff hsource htarget]
            exact fun h => h.2 ⟨path, hpath.1⟩
        | none =>
          have hnone := (Search.cheapestPath?_eq_none_iff hne).1 hsearch
          exact ⟨fun _ h => absurd h (by simp), fun _ h => absurd h (by simp),
            iff_of_true rfl ((pins_iff hsource htarget).2 ⟨hfacing, hnone⟩)⟩

/-- On a board with edges, every wire is routed as well as can be. -/
theorem isRouted_route (hsize : 0 ≤ b.content.size.y) (hscale : 0 ≤ b.settings.scale) (w : Wire) :
    ∃ r, b.route w = .ok r ∧ IsRouted b w r := by
  have hedge : 0 ≤ b.extent.y := Int.mul_nonneg hsize hscale
  -- There are edges, so no pin can lack one.
  have hlacks : ∀ pin, b.lacksEdge pin = false := by
    intro pin
    unfold lacksEdge
    rw [decide_eq_false (by omega), Bool.false_and]
  have hall : b.chipPins.any b.lacksEdge = false := by
    rw [List.any_eq_false]
    intro pin _
    rw [hlacks pin]
    exact Bool.false_ne_true
  have hroute : b.routeLacksEdge w = false := by
    unfold routeLacksEdge
    rw [hlacks, hlacks, hall, Bool.or_self, Bool.false_or]
    split <;> simp
  refine ⟨b.routeOf w, ?_, isRouted_routeOf hedge w⟩
  unfold route
  rw [hroute]
  rfl

/-! ## §4. An empty board. -/

/-- A board of four cells without chips, with an input over the left column and an output under the
right one. -/
def emptyBoard : Board where
  owner := ⟨"top"⟩
  content := .ofSize .one
  types := TypeTable.lookup
    (.ofList [(⟨"top"⟩, { ChipType.skeleton with inputs := ["A", ""], outputs := ["", "R"] })])
  settings := ⟨1, 10, 9⟩

/-- The wire from the input to the output. -/
def acrossWire : Wire := .between ⟨⟨"top"⟩, false, "A"⟩ ⟨⟨"top"⟩, true, "R"⟩ 0

/-- The wire goes over a third cell, and no way is cheaper. -/
theorem isRouted_acrossWire :
    emptyBoard.route acrossWire = .ok (.searched [⟨0, 0⟩, ⟨1, 0⟩, ⟨1, 1⟩]) ∧
      IsRouted emptyBoard acrossWire (.searched [⟨0, 0⟩, ⟨1, 0⟩, ⟨1, 1⟩]) := by
  have hroute : emptyBoard.route acrossWire = .ok (.searched [⟨0, 0⟩, ⟨1, 0⟩, ⟨1, 1⟩]) := by
    cbv
  obtain ⟨r, hr, hrouted⟩ := @isRouted_route emptyBoard (by decide) (by decide) acrossWire
  obtain rfl := Except.ok.inj (hr.symm.trans hroute)
  exact ⟨hroute, hrouted⟩

end Board

end LogicBoard
