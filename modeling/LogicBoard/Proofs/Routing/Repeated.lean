/-
  LogicBoard.Proofs.Routing.Repeated
  ────────────────────────────────
  **ROUTING AGAIN WHAT WAS ROUTED BEFORE.**

  A rerouting forgets the paths of the selected wires before it looks at
  anything, and neither the turns nor the spans of wires depend on paths.  So
  where it ends does not depend on the paths that it began with: a second
  rerouting begins where the first one began.

  Main statements:
    • `reroute_unrouted` — rerouting takes no account of the old paths,
    • `unrouted_rerouted` — without its new paths a board is as it was,
    • `reroute_twice` — a second rerouting changes nothing, and the first
      one changes nothing but what it is to.
-/
import Mathlib.Data.List.Forall2
import LogicBoard.Proofs.Routing.Reroute

namespace LogicBoard.Board

variable {b : Board} {chip : Option Name}

/-! ## §1. Where a rerouting begins. -/

/-- A wire as a rerouting begins with it. -/
def startOf (chip : Option Name) (w : Wire) : Wire :=
  if isSelected chip w then w.cleared else w

theorem unrouted_eq (b : Board) (chip : Option Name) :
    b.unrouted chip = b.withWires (b.content.wires.map (startOf chip)) := rfl

/-- Whether a wire is selected does not change when its path is taken away. -/
@[simp] theorem isSelected_startOf (w : Wire) :
    isSelected chip (startOf chip w) = isSelected chip w := by
  unfold startOf
  split
  · exact isSelected_cleared w
  · rfl

/-- The path is taken away once. -/
@[simp] theorem startOf_startOf (w : Wire) : startOf chip (startOf chip w) = startOf chip w := by
  rw [startOf, isSelected_startOf]
  unfold startOf
  split <;> rfl

/-- Wires that are equal but for their paths begin alike if they are selected. -/
theorem startOf_eq_of_cleared {u v : Wire} (h : u.cleared = v.cleared)
    (hu : isSelected chip u = true) : startOf chip u = startOf chip v := by
  have hv : isSelected chip v = true := by
    rw [← isSelected_cleared, ← h, isSelected_cleared, hu]
  unfold startOf
  rw [if_pos hu, if_pos hv, h]

/-- The span of a wire depends on its pins only. -/
theorem span?_startOf (b : Board) (w : Wire) :
    (b.unrouted chip).span? (startOf chip w) = b.span? w := by
  unfold startOf
  split <;> rfl

/-! ## §2. Old paths. -/

theorem unrouted_unrouted (b : Board) (chip : Option Name) :
    (b.unrouted chip).unrouted chip = b.unrouted chip := by
  rw [unrouted_eq, unrouted_eq]
  show b.withWires ((b.content.wires.map (startOf chip)).map (startOf chip)) = _
  rw [List.map_map]
  congr 2
  funext w
  exact startOf_startOf w

/-- The turns do not depend on the paths of the wires that have one. -/
theorem schedule_unrouted (b : Board) (chip : Option Name) :
    (b.unrouted chip).schedule chip = b.schedule chip := by
  unfold schedule
  show (((((b.content.wires.map (startOf chip)).zipIdx).filter (isSelected chip ·.1)).map
    fun e => (((b.unrouted chip).span? e.1).getD unknownSpan, e.2)).mergeSort _).map _ = _
  rw [List.zipIdx_map, List.filter_map, List.map_map]
  have hselected : ((fun e : Wire × Nat => isSelected chip e.1) ∘ Prod.map (startOf chip) id)
      = fun e => isSelected chip e.1 := by
    funext e
    exact isSelected_startOf e.1
  have hspans : ((fun e : Wire × Nat => (((b.unrouted chip).span? e.1).getD unknownSpan, e.2)) ∘
      Prod.map (startOf chip) id) = fun e => ((b.span? e.1).getD unknownSpan, e.2) := by
    funext e
    show (((b.unrouted chip).span? (startOf chip e.1)).getD unknownSpan, e.2) = _
    rw [span?_startOf]
  rw [hselected, hspans]

/-- Rerouting takes no account of the old paths. -/
theorem reroute_unrouted (b : Board) (chip : Option Name) :
    (b.unrouted chip).reroute chip = b.reroute chip := by
  unfold reroute
  rw [schedule_unrouted, unrouted_unrouted]

/-! ## §3. New paths. -/

/-- A wire that is not selected stays as it is. -/
theorem getElem?_of_not_selected {j : Nat} {u : Wire} (hu : b.content.wires[j]? = some u)
    (h : isSelected chip u = false) : (b.rerouted chip).content.wires[j]? = some u := by
  have hturn : j ∉ b.schedule chip := by
    intro hmem
    obtain ⟨w, hw, hselected⟩ := mem_schedule.1 hmem
    obtain rfl : u = w := Option.some.inj (hu.symm.trans hw)
    rw [h] at hselected
    exact absurd hselected (by simp)
  unfold rerouted
  rw [getElem?_settled _ hturn, unrouted_eq]
  show (b.content.wires.map (startOf chip))[j]? = some u
  rw [List.getElem?_map, hu]
  simp [startOf, h]

/-- Without its new paths a board is as it was without the old ones. -/
theorem unrouted_rerouted (b : Board) (chip : Option Name) :
    (b.rerouted chip).unrouted chip = b.unrouted chip := by
  obtain ⟨wires, hframe, hcleared⟩ := b.rerouted_frame chip
  have hwires : wires.map (startOf chip) = b.content.wires.map (startOf chip) := by
    refine List.ext_getElem? fun j => ?_
    have hj : (wires.map Wire.cleared)[j]? = (b.content.wires.map Wire.cleared)[j]? := by
      rw [hcleared]
    rw [List.getElem?_map, List.getElem?_map] at hj ⊢
    cases hu : b.content.wires[j]? with
    | none =>
      rw [hu] at hj
      rw [Option.map_eq_none_iff.1 hj]
    | some u =>
      rw [hu] at hj
      obtain ⟨v, hv, hsame⟩ := Option.map_eq_some_iff.1 hj
      rw [hv]
      refine congrArg some ?_
      -- A selected wire begins without a path, whatever its path is; another one has kept its own.
      cases hselected : isSelected chip u with
      | true => exact (startOf_eq_of_cleared hsame.symm hselected).symm
      | false =>
        have hkept := getElem?_of_not_selected hu hselected
        rw [hframe] at hkept
        obtain rfl : v = u := Option.some.inj (hv.symm.trans hkept)
        rfl
  rw [hframe, unrouted_eq, unrouted_eq]
  show b.withWires (wires.map (startOf chip)) = _
  rw [hwires]

/-! ## §4. Twice. -/

/-- One content comes from another one by new paths for selected wires. -/
structure Reroutes (chip : Option Name) (before after : Content) : Prop where
  size : after.size = before.size
  chips : after.chips = before.chips
  /-- The wires stay in order.  Nothing changes but the paths of those that are selected and
  whether they are valid. -/
  wires : List.Forall₂ (fun u v : Wire => v = { u with path := v.path, valid := v.valid } ∧
    (isSelected chip u = false → v = u)) before.wires after.wires

/-- All selected wires are counted. -/
theorem length_schedule (b : Board) (chip : Option Name) :
    (b.schedule chip).length = (b.content.wires.filter (isSelected chip ·)).length := by
  rw [(b.schedule_perm chip).length_eq, List.length_map, ← List.countP_eq_length_filter,
    ← List.countP_eq_length_filter]
  conv_rhs => rw [← List.zipIdx_map_fst 0 b.content.wires, List.countP_map]
  rfl

/-- Wires that are equal without their paths differ in nothing else. -/
theorem eq_of_cleared {u v : Wire} (h : u.cleared = v.cleared) :
    v = { u with path := v.path, valid := v.valid } := by
  obtain ⟨layer, path, source, target, drawn, valid⟩ := u
  obtain ⟨layer', path', source', target', drawn', valid'⟩ := v
  simp only [Wire.cleared, Wire.mk.injEq] at h ⊢
  obtain ⟨hlayer, -, hsource, htarget, hdrawn, -⟩ := h
  exact ⟨hlayer.symm, trivial, hsource.symm, htarget.symm, hdrawn.symm, trivial⟩

theorem reroutes_rerouted (b : Board) (chip : Option Name) :
    Reroutes chip b.content (b.rerouted chip).content := by
  obtain ⟨wires, hframe, hcleared⟩ := b.rerouted_frame chip
  have hlength : b.content.wires.length = wires.length := by
    simpa using (congrArg List.length hcleared).symm
  refine ⟨by rw [hframe]; rfl, by rw [hframe]; rfl, ?_⟩
  rw [hframe]
  refine List.forall₂_iff_get.2 ⟨hlength, fun j hj hj' => ?_⟩
  have hu : b.content.wires[j]? = some b.content.wires[j] := List.getElem?_eq_getElem hj
  have hv : (b.rerouted chip).content.wires[j]? = some wires[j] := by
    rw [hframe]
    exact List.getElem?_eq_getElem hj'
  obtain ⟨w, hw, hsame⟩ := exists_before hv
  obtain rfl := Option.some.inj (hu.symm.trans hw)
  refine ⟨eq_of_cleared hsame, fun hselected => ?_⟩
  exact Option.some.inj (hv.symm.trans (getElem?_of_not_selected hu hselected))

theorem reroute_count {n : Nat} {content : Content} (h : b.reroute chip = .ok (n, content)) :
    n = (b.schedule chip).length := by
  unfold reroute at h
  obtain ⟨c, -, hpair⟩ := Fallible.bind_ok_iff.1 h
  exact (congrArg Prod.fst (Except.ok.inj hpair)).symm

/-- Rerouting changes nothing but the paths of the selected wires and whether they are valid, and
doing so a second time changes nothing at all. -/
theorem reroute_twice {n : Nat} {content : Content} (h : b.reroute chip = .ok (n, content)) :
    { b with content }.reroute chip = .ok (n, content) ∧
      n = (b.content.wires.filter (isSelected chip ·)).length ∧
      Reroutes chip b.content content := by
  obtain rfl := reroute_ok h
  obtain ⟨wires, hframe, -⟩ := b.rerouted_frame chip
  have hboard : { b with content := (b.rerouted chip).content } = b.rerouted chip := by
    rw [hframe]
    rfl
  refine ⟨?_, (reroute_count h).trans (b.length_schedule chip), b.reroutes_rerouted chip⟩
  calc { b with content := (b.rerouted chip).content }.reroute chip
      = ((b.rerouted chip).unrouted chip).reroute chip := by rw [hboard, reroute_unrouted]
    _ = b.reroute chip := by rw [unrouted_rerouted, reroute_unrouted]
    _ = .ok (n, (b.rerouted chip).content) := h

/-- The chip of the detours, an old path on its left where a path drawn by hand is in the way now,
and an old path of a wire whose chip is gone. -/
def strayBoard : Board :=
  detourBoard.withWires
    [{ Wire.between ⟨⟨"top"⟩, false, "A"⟩ ⟨⟨"top"⟩, true, "R"⟩ 0 with path := leftDetour },
     { Wire.between ⟨⟨"top"⟩, false, "B"⟩ ⟨⟨"top"⟩, true, "S"⟩ 0 with
        path := [⟨0, 1⟩], drawn := true },
     { Wire.between ⟨⟨"gone"⟩, true, "R"⟩ ⟨⟨"top"⟩, true, "S"⟩ 0 with path := [⟨3, 1⟩] }]

/-- The way from top to bottom past the chip on the right, where no path is any more. -/
def rightPassage : List Vec :=
  [⟨1, 0⟩, ⟨2, 0⟩, ⟨3, 0⟩, ⟨3, 1⟩, ⟨3, 2⟩, ⟨3, 3⟩, ⟨2, 3⟩, ⟨1, 3⟩]

/-- Two wires are routed again, one of them in vain, and routing them once more changes nothing. -/
theorem reroute_strayBoard : ∃ content, strayBoard.reroute none = .ok (2, content) ∧
    content.wires.map (·.path) = [rightPassage, [⟨0, 1⟩], []] ∧
    { strayBoard with content }.reroute none = .ok (2, content) ∧
    2 = (strayBoard.content.wires.filter (isSelected none ·)).length ∧
    Reroutes none strayBoard.content content := by
  have hrun : (strayBoard.reroute none).map (fun r => (r.1, r.2.wires.map (·.path)))
      = .ok (2, [rightPassage, [⟨0, 1⟩], []]) := by cbv
  obtain ⟨⟨n, content⟩, h, heq⟩ := Fallible.map_ok_iff.1 hrun
  obtain ⟨rfl, hpaths⟩ := Prod.mk.inj heq
  exact ⟨content, h, hpaths, reroute_twice h⟩

end LogicBoard.Board
