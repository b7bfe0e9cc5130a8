/-
  LogicBoard.Proofs.Routing.Reroute
  ────────────────────────────────
  **ROUTING WIRES ONE AFTER THE OTHER.**

  Rerouting first takes the paths of the selected wires away and then gives
  each of them a new one, nearest pins first.  A turn changes one wire and
  nothing else, and no wire has two turns: when a wire is routed, the paths of
  the wires before it and of those that were not selected are already what
  they will be in the end.

  Main statements:
    • `reroute_eq` — on a board with edges, all turns are taken,
    • `mem_schedule`, `schedule_nodup` — each selected wire has one turn,
    • `getElem?_settled` — after its turn a wire is left alone,
    • `keepsClear_reroute` — new paths keep clear of chips and of each other.
-/
import LogicBoard.Proofs.Fallible
import LogicBoard.Proofs.Routing.Costs

namespace LogicBoard.Board

variable {b : Board} {chip : Option Name}

/-! ## §1. Edges. -/

theorem routeLacksEdge_eq_false (hedge : 0 ≤ b.extent.y) (w : Wire) :
    b.routeLacksEdge w = false := by
  have hpins : b.chipPins.any b.lacksEdge = false :=
    List.any_eq_false.2 fun pin _ => by simp [lacksEdge_eq_false hedge pin]
  unfold routeLacksEdge
  rw [lacksEdge_eq_false hedge, lacksEdge_eq_false hedge, hpins]
  split <;> simp

/-- Whatever route a wire gets, it is the one between its pins. -/
theorem route_ok {w : Wire} {r : Route} (h : b.route w = .ok r) : r = b.routeOf w := by
  unfold route at h
  split at h
  · exact absurd h (by simp)
  · exact (Except.ok.inj h).symm

theorem route_eq (hedge : 0 ≤ b.extent.y) (w : Wire) : b.route w = .ok (b.routeOf w) := by
  unfold route
  rw [routeLacksEdge_eq_false hedge w]
  rfl

/-! ## §2. Turns. -/

/-- The board after the turn of the wire at a position. -/
def turned (b : Board) (i : Nat) : Board :=
  b.withWires (b.content.wires.modify i fun w => (b.routeOf w).along w)

theorem turned_of_none {i : Nat} (h : b.content.wires[i]? = none) : b.turned i = b := by
  unfold turned
  rw [List.modify_eq_set_getElem?, h]
  rfl

theorem turned_of_some {i : Nat} {w : Wire} (h : b.content.wires[i]? = some w) :
    b.turned i = b.withWires (b.content.wires.set i ((b.routeOf w).along w)) := by
  unfold turned
  rw [List.modify_eq_set_getElem?, h]
  rfl

/-- A turn that is taken is the turn of the wire. -/
theorem routeAt_ok {b' : Board} {i : Nat} (h : b.routeAt i = .ok b') : b' = b.turned i := by
  unfold routeAt at h
  cases hw : b.content.wires[i]? with
  | none =>
    rw [hw] at h
    rw [turned_of_none hw]
    exact (Except.ok.inj h).symm
  | some w =>
    rw [hw] at h
    dsimp only at h
    split at h
    · exact absurd h (by simp)
    · rw [turned_of_some hw]
      exact (Except.ok.inj h).symm

theorem routeAt_eq (hedge : 0 ≤ b.extent.y) (i : Nat) : b.routeAt i = .ok (b.turned i) := by
  unfold routeAt
  cases hw : b.content.wires[i]? with
  | none => rw [turned_of_none hw]
  | some w =>
    dsimp only
    rw [routeLacksEdge_eq_false hedge w, turned_of_some hw]
    rfl

theorem foldlM_routeAt_ok {order : List Nat} {b' : Board} (h : order.foldlM routeAt b = .ok b') :
    b' = order.foldl turned b := by
  induction order generalizing b with
  | nil => exact (Except.ok.inj h).symm
  | cons i rest ih =>
    rw [List.foldlM_cons, Fallible.bind_ok_iff] at h
    obtain ⟨c, hi, hrest⟩ := h
    rw [List.foldl_cons, ← routeAt_ok hi]
    exact ih hrest

theorem foldlM_routeAt_eq (hedge : 0 ≤ b.extent.y) (order : List Nat) :
    order.foldlM routeAt b = .ok (order.foldl turned b) := by
  induction order generalizing b with
  | nil => rfl
  | cons i rest ih =>
    rw [List.foldlM_cons, List.foldl_cons, routeAt_eq hedge]
    -- A turn leaves the edges where they are.
    exact ih (b := b.turned i) hedge

/-! ## §3. What turns leave alone. -/

/-- Turns change the paths of wires and nothing else. -/
theorem foldl_turned_frame (b : Board) (order : List Nat) :
    ∃ wires, order.foldl turned b = b.withWires wires ∧
      wires.map Wire.cleared = b.content.wires.map Wire.cleared := by
  refine List.foldlRecOn order turned (motive := fun c => ∃ wires, c = b.withWires wires ∧
    wires.map Wire.cleared = b.content.wires.map Wire.cleared) ⟨b.content.wires, rfl, rfl⟩ ?_
  rintro _ ⟨wires, rfl, hwires⟩ i -
  refine ⟨_, rfl, Eq.trans (List.ext_getElem? fun j => ?_) hwires⟩
  rw [List.getElem?_map, List.getElem?_map, List.getElem?_modify]
  show Option.map _ (Option.map _ wires[j]?) = Option.map _ wires[j]?
  rw [Option.map_map]
  congr 1
  funext w
  by_cases hij : i = j
  · simp [hij, Wire.cleared, Route.along]
  · simp [hij]

/-- Turns leave the wires alone whose turns they are not. -/
theorem getElem?_settled (b : Board) {order : List Nat} {j : Nat} (hj : j ∉ order) :
    (order.foldl turned b).content.wires[j]? = b.content.wires[j]? := by
  refine List.foldlRecOn order turned (motive := fun c =>
    c.content.wires[j]? = b.content.wires[j]?) rfl ?_
  intro c hc i hi
  have hij : i ≠ j := fun h => hj (h ▸ hi)
  rw [← hc]
  show (c.content.wires.modify i _)[j]? = _
  rw [List.getElem?_modify]
  simp [hij]

/-! ## §4. The schedule. -/

theorem schedule_perm (b : Board) (chip : Option Name) :
    (b.schedule chip).Perm ((b.content.wires.zipIdx.filter (isSelected chip ·.1)).map (·.2)) := by
  unfold schedule
  -- Sorting by spans moves the positions about, and the spans are dropped after it.
  refine ((List.mergeSort_perm _ _).map _).trans ?_
  rw [List.map_map]
  exact List.Perm.refl _

/-- The wires that have a turn are the selected ones. -/
theorem mem_schedule {i : Nat} :
    i ∈ b.schedule chip ↔ ∃ w, b.content.wires[i]? = some w ∧ isSelected chip w = true := by
  rw [(b.schedule_perm chip).mem_iff, List.mem_map]
  constructor
  · rintro ⟨⟨w, j⟩, hmem, rfl⟩
    obtain ⟨hw, hselected⟩ := List.mem_filter.1 hmem
    exact ⟨w, List.mk_mem_zipIdx_iff_getElem?.1 hw, hselected⟩
  · rintro ⟨w, hw, hselected⟩
    exact ⟨(w, i), List.mem_filter.2 ⟨List.mk_mem_zipIdx_iff_getElem?.2 hw, hselected⟩, rfl⟩

/-- No wire has two turns. -/
theorem schedule_nodup (b : Board) (chip : Option Name) : (b.schedule chip).Nodup := by
  rw [(b.schedule_perm chip).nodup_iff]
  refine List.Nodup.sublist (List.Sublist.map _ List.filter_sublist) ?_
  rw [List.zipIdx_map_snd]
  exact List.nodup_range'

/-! ## §5. Whole reroutings. -/

/-- Whether a wire is selected does not depend on its path. -/
theorem isSelected_cleared (w : Wire) : isSelected chip w.cleared = isSelected chip w := rfl

/-- The board after all turns. -/
def rerouted (b : Board) (chip : Option Name) : Board :=
  (b.schedule chip).foldl turned (b.unrouted chip)

theorem reroute_ok {n : Nat} {content : Content} (h : b.reroute chip = .ok (n, content)) :
    content = (b.rerouted chip).content := by
  unfold reroute at h
  obtain ⟨c, hall, hpair⟩ := Fallible.bind_ok_iff.1 h
  rw [rerouted, ← foldlM_routeAt_ok hall]
  exact (congrArg Prod.snd (Except.ok.inj hpair)).symm

/-- On a board with edges, all turns are taken. -/
theorem reroute_eq (hedge : 0 ≤ b.extent.y) (chip : Option Name) :
    b.reroute chip = .ok ((b.schedule chip).length, (b.rerouted chip).content) := by
  unfold reroute
  dsimp only
  rw [foldlM_routeAt_eq (b := b.unrouted chip) hedge]
  rfl

/-- Rerouting changes the paths of wires and nothing else. -/
theorem rerouted_frame (b : Board) (chip : Option Name) :
    ∃ wires, b.rerouted chip = b.withWires wires ∧
      wires.map Wire.cleared = b.content.wires.map Wire.cleared := by
  obtain ⟨wires, hboard, hwires⟩ := foldl_turned_frame (b.unrouted chip) (b.schedule chip)
  refine ⟨wires, hboard, hwires.trans ?_⟩
  show (b.content.wires.map _).map _ = _
  rw [List.map_map]
  refine List.map_congr_left fun w _ => ?_
  show (if isSelected chip w = true then w.cleared else w).cleared = w.cleared
  split <;> rfl

/-- A wire keeps its layer, its ends and whether it was drawn. -/
theorem exists_before {j : Nat} {v : Wire}
    (h : (b.rerouted chip).content.wires[j]? = some v) :
    ∃ u, b.content.wires[j]? = some u ∧ u.cleared = v.cleared := by
  obtain ⟨wires, hboard, hwires⟩ := b.rerouted_frame chip
  rw [hboard] at h
  have hj : (wires.map Wire.cleared)[j]? = some v.cleared := by
    rw [List.getElem?_map]
    exact congrArg (Option.map Wire.cleared) h
  rw [hwires, List.getElem?_map] at hj
  exact Option.map_eq_some_iff.1 hj

theorem mem_rerouted {v : Wire} (h : v ∈ (b.rerouted chip).content.wires) :
    ∃ u ∈ b.content.wires, u.cleared = v.cleared := by
  obtain ⟨j, hj⟩ := List.mem_iff_getElem?.1 h
  obtain ⟨u, hu, hcleared⟩ := exists_before hj
  exact ⟨u, List.mem_of_getElem? hu, hcleared⟩

/-! ## §6. One turn among the others. -/

/-- The board after the first turns of a rerouting. -/
def afterTurns (b : Board) (chip : Option Name) (k : Nat) : Except BoardFault Board :=
  ((b.schedule chip).take k).foldlM routeAt (b.unrouted chip)

/-- The turn at place `k` of the schedule is that of the wire at position `i`, which gets the
route `r`. -/
def HasTurn (b : Board) (chip : Option Name) (k i : Nat) (r : Route) : Prop :=
  (b.schedule chip)[k]? = some i ∧ ∃ c w, b.afterTurns chip k = .ok c ∧
    c.content.wires[i]? = some w ∧ c.route w = .ok r

/-- The board after the first turns, given that it has edges. -/
def midway (b : Board) (chip : Option Name) (k : Nat) : Board :=
  ((b.schedule chip).take k).foldl turned (b.unrouted chip)

theorem afterTurns_eq (hedge : 0 ≤ b.extent.y) (chip : Option Name) (k : Nat) :
    b.afterTurns chip k = .ok (b.midway chip k) :=
  foldlM_routeAt_eq (b := b.unrouted chip) hedge _

theorem midway_frame (b : Board) (chip : Option Name) (k : Nat) :
    ∃ wires, b.midway chip k = b.withWires wires := by
  obtain ⟨wires, hboard, -⟩ := foldl_turned_frame (b.unrouted chip) ((b.schedule chip).take k)
  exact ⟨wires, hboard⟩

theorem rerouted_eq_midway (b : Board) (chip : Option Name) (k : Nat) :
    b.rerouted chip = ((b.schedule chip).drop k).foldl turned (b.midway chip k) := by
  unfold rerouted midway
  rw [← List.foldl_append, List.take_append_drop]

/-- A wire that was not selected, or has had its turn, has no turn any more. -/
theorem not_mem_drop_schedule {j k : Nat} {v : Wire}
    (hv : (b.rerouted chip).content.wires[j]? = some v)
    (h : isSelected chip v = false ∨ ∃ l < k, (b.schedule chip)[l]? = some j) :
    j ∉ (b.schedule chip).drop k := by
  intro hmem
  rcases h with hselected | ⟨l, hlt, hl⟩
  · obtain ⟨u, hu, hcleared⟩ := exists_before hv
    obtain ⟨w, hw, hwselected⟩ := mem_schedule.1 (List.mem_of_mem_drop hmem)
    obtain rfl : u = w := Option.some.inj (hu.symm.trans hw)
    rw [← isSelected_cleared, ← hcleared, isSelected_cleared, hwselected] at hselected
    exact absurd hselected (by simp)
  · -- The place of a position in the schedule is unique.
    obtain ⟨n, hn⟩ := List.mem_iff_getElem?.1 hmem
    rw [List.getElem?_drop] at hn
    have hin : l < (b.schedule chip).length := (List.getElem?_eq_some_iff.1 hl).1
    have hplace : l = k + n :=
      (List.getElem?_inj hin (b.schedule_nodup chip)).1 (hl.trans hn.symm)
    omega

/-- What a wire gets in its turn, it keeps. -/
theorem HasTurn.kept (hedge : 0 ≤ b.extent.y) {k i : Nat} {r : Route} (h : HasTurn b chip k i r) :
    ∃ w, (b.midway chip k).content.wires[i]? = some w ∧ r = (b.midway chip k).routeOf w ∧
      (b.rerouted chip).content.wires[i]? = some (r.along w) := by
  obtain ⟨hk, c, w, hc, hw, hr⟩ := h
  obtain rfl : b.midway chip k = c :=
    Except.ok.inj ((afterTurns_eq hedge chip k).symm.trans hc)
  have hr' := route_ok hr
  refine ⟨w, hw, hr', ?_⟩
  obtain ⟨hlt, hi⟩ := List.getElem?_eq_some_iff.1 hk
  have hdrop : (b.schedule chip).drop k = i :: (b.schedule chip).drop (k + 1) := by
    rw [List.drop_eq_getElem_cons hlt, hi]
  have hlater : i ∉ (b.schedule chip).drop (k + 1) := by
    have hnodup := (b.schedule_nodup chip).sublist (List.drop_sublist k _)
    rw [hdrop] at hnodup
    exact (List.nodup_cons.1 hnodup).1
  rw [b.rerouted_eq_midway chip k, hdrop, List.foldl_cons, getElem?_settled _ hlater]
  show ((b.midway chip k).content.wires.modify i _)[i]? = _
  rw [List.getElem?_modify, hw, hr']
  simp

/-- In its turn a wire is led around chips and around the wires that are where they will be. -/
theorem HasTurn.clear (hedge : 0 ≤ b.extent.y) {k i : Nat} {path : List Vec}
    (h : HasTurn b chip k i (.searched path)) {cell : Vec} (hcell : cell ∈ path.tail) :
    (∀ c ∈ b.content.chips.values, ¬ c.Covers b.types cell) ∧
      ∀ w j v, (b.rerouted chip).content.wires[i]? = some w →
        (b.rerouted chip).content.wires[j]? = some v →
        v.layer = w.layer → v.source ≠ w.source →
        (isSelected chip v = false ∨ ∃ l < k, (b.schedule chip)[l]? = some j) →
        cell ∉ v.path := by
  obtain ⟨u, -, hroute, hkept⟩ := h.kept hedge
  obtain ⟨wires, hmidway⟩ := b.midway_frame chip k
  have hedge' : 0 ≤ (b.midway chip k).extent.y := by
    rw [hmidway]
    exact hedge
  -- The search entered the cell, so nothing was in its way there.
  obtain ⟨source, target, -, -, hpath, -⟩ := (isRouted_routeOf hedge' u).searched path hroute.symm
  obtain ⟨hchips, hwires⟩ := open_of_enterable (hpath.enterable cell hcell)
  refine ⟨?_, fun w j v hw hv hlayer hsource hsettled => ?_⟩
  · rw [hmidway] at hchips
    exact hchips
  · obtain rfl : (Route.searched path).along u = w := Option.some.inj (hkept.symm.trans hw)
    have hnow : (b.midway chip k).content.wires[j]? = some v := by
      have hlater := not_mem_drop_schedule hv hsettled
      rw [b.rerouted_eq_midway chip k, getElem?_settled _ hlater] at hv
      exact hv
    refine hwires v (List.mem_of_getElem? hnow) ?_
    have hid : v.id ≠ u.id := fun heq => hsource (congrArg WireId.source heq)
    have hsource' : v.source ≠ u.source := hsource
    have hlayer' : v.layer = u.layer := hlayer
    simp [inTheWay, hlayer', hid, hsource']

/-! ## §7. Clearance. -/

/-- What rerouting is to achieve, turn by turn. -/
structure KeepsClear (b : Board) (chip : Option Name) (routed : Content) : Prop where
  /-- Every selected wire has a turn. -/
  turns : ∀ i w, b.content.wires[i]? = some w → isSelected chip w = true →
    ∃ k r, HasTurn b chip k i r
  /-- A wire ends up with what it got in its turn. -/
  kept : ∀ k i r, HasTurn b chip k i r → ∃ w, routed.wires[i]? = some w ∧ w.path = r.path
  /-- No cell of a path that was searched for is under a chip, except for the first one. -/
  chips : ∀ k i path, HasTurn b chip k i (.searched path) → ∀ cell ∈ path.tail,
    ∀ c ∈ routed.chips.values, ¬ c.Covers b.types cell
  /-- No such cell is on a wire of the layer from elsewhere that was not selected or had its turn
  before. -/
  wires : ∀ k i path, HasTurn b chip k i (.searched path) → ∀ cell ∈ path.tail,
    ∀ w j v, routed.wires[i]? = some w → routed.wires[j]? = some v →
      v.layer = w.layer → v.source ≠ w.source →
      (isSelected chip v = false ∨ ∃ l < k, (b.schedule chip)[l]? = some j) → cell ∉ v.path
  /-- Two such paths share no cell but the first one of the later path. -/
  shared : ∀ k i path l j path', HasTurn b chip k i (.searched path) →
    HasTurn b chip l j (.searched path') → k < l →
    ∀ w v, routed.wires[i]? = some w → routed.wires[j]? = some v →
      w.layer = v.layer → w.source ≠ v.source →
      ∀ cell ∈ path, cell ∈ path' → path'.head? = some cell

/-- On a board with edges, new paths keep clear of chips and of each other. -/
theorem keepsClear_reroute (hsize : 0 ≤ b.content.size.y) (hscale : 0 ≤ b.settings.scale)
    (chip : Option Name) :
    ∃ routed, b.reroute chip = .ok ((b.schedule chip).length, routed) ∧
      KeepsClear b chip routed := by
  have hedge : 0 ≤ b.extent.y := Int.mul_nonneg hsize hscale
  obtain ⟨wires, hframe, -⟩ := b.rerouted_frame chip
  refine ⟨(b.rerouted chip).content, reroute_eq hedge chip, ?_⟩
  constructor
  case turns =>
    intro i w hw hselected
    obtain ⟨k, hk⟩ := List.mem_iff_getElem?.1 (mem_schedule.2 ⟨w, hw, hselected⟩)
    -- The wire is still there when its turn comes.
    obtain ⟨wires, hmidway, hwires⟩ :=
      foldl_turned_frame (b.unrouted chip) ((b.schedule chip).take k)
    have hlength : wires.length = b.content.wires.length := by
      simpa [unrouted, withWires] using congrArg List.length hwires
    have hi : i < wires.length := hlength ▸ (List.getElem?_eq_some_iff.1 hw).1
    have hthere : (b.midway chip k).content.wires[i]? = some wires[i] := by
      rw [midway, hmidway]
      exact List.getElem?_eq_getElem hi
    have hedge' : 0 ≤ (b.midway chip k).extent.y := by
      rw [midway, hmidway]
      exact hedge
    exact ⟨k, _, hk, _, _, afterTurns_eq hedge chip k, hthere, route_eq hedge' _⟩
  case kept =>
    intro k i r hturn
    obtain ⟨w, -, -, hw⟩ := hturn.kept hedge
    exact ⟨_, hw, rfl⟩
  case chips =>
    intro k i path hturn cell hcell c hc
    rw [hframe] at hc
    exact (hturn.clear hedge hcell).1 c hc
  case wires =>
    intro k i path hturn cell hcell
    exact (hturn.clear hedge hcell).2
  case shared =>
    intro k i path l j path' hturn hturn' hlt w v hw hv hlayer hsource cell hcell hcell'
    -- All cells of the later path but the first keep clear of the earlier path.
    obtain ⟨u, -, -, hkept⟩ := hturn.kept hedge
    obtain rfl : (Route.searched path).along u = w := Option.some.inj (hkept.symm.trans hw)
    cases path' with
    | nil => exact absurd hcell' List.not_mem_nil
    | cons first rest =>
      rcases List.mem_cons.1 hcell' with rfl | hrest
      · rfl
      · exact absurd hcell ((hturn'.clear hedge hrest).2 v i _ hv hw hlayer hsource
          (Or.inr ⟨k, hlt, hturn.1⟩))

/-! ## §8. A detour. -/

/-- A type without named ports. -/
def plainType : ChipType := { ChipType.skeleton with inputs := ["", ""], outputs := ["", ""] }

/-- A board of sixteen cells with a chip in the middle and two wires from top to bottom. -/
def detourBoard : Board where
  owner := ⟨"top"⟩
  content := .ofChips ⟨3, 3⟩ [.ofPlace ⟨"c"⟩ ⟨"block"⟩ ⟨1, 1⟩]
    [.between ⟨⟨"top"⟩, false, "A"⟩ ⟨⟨"top"⟩, true, "R"⟩ 0,
     .between ⟨⟨"top"⟩, false, "B"⟩ ⟨⟨"top"⟩, true, "S"⟩ 0]
  types := TypeTable.lookup (.ofList
    [(⟨"block"⟩, plainType),
     (⟨"top"⟩, { plainType with inputs := ["", "A", "B", ""], outputs := ["", "R", "S", ""] })])
  settings := ⟨1, 10, 9⟩

/-- The way past the chip on the left. -/
def leftDetour : List Vec := [⟨1, 0⟩, ⟨0, 0⟩, ⟨0, 1⟩, ⟨0, 2⟩, ⟨0, 3⟩, ⟨1, 3⟩]

/-- The way past the chip on the right. -/
def rightDetour : List Vec := [⟨2, 0⟩, ⟨3, 0⟩, ⟨3, 1⟩, ⟨3, 2⟩, ⟨3, 3⟩, ⟨2, 3⟩]

/-- The wires pass the chip on either side, and keep clear of each other. -/
theorem keepsClear_detour :
    HasTurn detourBoard none 0 0 (.searched leftDetour) ∧
      HasTurn detourBoard none 1 1 (.searched rightDetour) ∧
      ∃ routed, detourBoard.reroute none = .ok ((detourBoard.schedule none).length, routed) ∧
        KeepsClear detourBoard none routed := by
  have hedge : 0 ≤ detourBoard.extent.y := by decide
  refine ⟨⟨by cbv, _, _, afterTurns_eq hedge none 0, rfl, ?_⟩,
    ⟨by cbv, _, .cleared (.between ⟨⟨"top"⟩, false, "B"⟩ ⟨⟨"top"⟩, true, "S"⟩ 0),
      afterTurns_eq hedge none 1, ?_, ?_⟩,
    @keepsClear_reroute detourBoard (by decide) (by decide) none⟩
  · cbv
  · cbv
  · cbv

end LogicBoard.Board
