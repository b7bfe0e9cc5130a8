/-
  LogicBoard.Proofs.Edit.Positions
  ────────────────────────────────
  **FINDING THINGS BY POSITION.**

  A position picks the first wire whose path touches the padded cell and the
  first chip whose padded body covers it; chips overlap if their padded bodies
  share an area.  The padding never reaches a further cell, so with exact
  numbers all three are questions about cells: those on a path, and those that
  the router keeps free for the body of a chip.

  Main statements:
    • `touches_pad_iff` — a path touches a padded cell exactly if it runs
      through the cell,
    • `wireAt?_exact` — a position picks the first wire that runs through it,
    • `overlap_pos_iff` — chips overlap exactly if they cover a cell in common,
    • `positions_of_chips` — overlaps and picked chips, said by covered cells.
-/
import LogicBoard.Edit.Editor
import LogicBoard.Proofs.Design.Content
import LogicBoard.Proofs.Geometry.Rects
import LogicBoard.Proofs.Routing.Costs

namespace LogicBoard

namespace Wire

variable {w : Wire} {pos : Vec}

/-! ## §1. Paths. -/

/-- All segments of the path stay in one row or one column. -/
def IsStraight (w : Wire) : Prop := w.path.IsChain fun a b => a.x = b.x ∨ a.y = b.y

/-- The cell is on the path, or a segment of the path runs over it. -/
def RunsThrough (w : Wire) (pos : Vec) : Prop :=
  pos ∈ w.path ∨ ∃ s ∈ w.segments, s.RunsOver pos

instance (w : Wire) (pos : Vec) : Decidable (w.RunsThrough pos) :=
  inferInstanceAs (Decidable (_ ∨ _))

/-- In a path of several cells each one ends a segment. -/
theorem exists_end_of_mem {cell a b : Vec} {rest : List Vec} (h : cell ∈ a :: b :: rest) :
    ∃ s ∈ (a :: b :: rest).zipWith Segment.mk (b :: rest), s.start = cell ∨ s.stop = cell := by
  induction rest generalizing a b with
  | nil =>
    refine ⟨⟨a, b⟩, List.mem_singleton_self _, ?_⟩
    rcases List.mem_pair.1 h with rfl | rfl
    · exact .inl rfl
    · exact .inr rfl
  | cons c rest ih =>
    rcases List.mem_cons.1 h with rfl | h
    · exact ⟨⟨cell, b⟩, List.mem_cons_self, .inl rfl⟩
    · obtain ⟨s, hs, hend⟩ := ih h
      exact ⟨s, List.mem_cons_of_mem _ hs, hend⟩

theorem IsStraight.isStraight_of_mem (hw : w.IsStraight) {s : Segment} (hs : s ∈ w.segments) :
    s.IsStraight := by
  unfold segments at hs
  obtain ⟨i, hi, rfl⟩ := List.mem_iff_getElem.1 hs
  rw [List.length_zipWith, List.length_drop] at hi
  have hnext := List.isChain_iff_getElem.1 hw i (by omega)
  rw [List.getElem_zipWith, List.getElem_drop]
  simp only [Nat.add_comm 1 i]
  exact hnext

/-- A path touches a padded cell exactly if it runs through the cell. -/
theorem IsStraight.touches_pad_iff (hw : w.IsStraight) {δ : ℚ} (hδ : 0 ≤ δ) (hδ' : δ < 1) :
    w.touches ((Rect.ofPoint pos : Rect ℚ).pad δ) = true ↔ w.RunsThrough pos := by
  have hsegments : (w.segments.any (·.intersectsRect ((Rect.ofPoint pos : Rect ℚ).pad δ))) = true ↔
      ∃ s ∈ w.segments, s.RunsOver pos := by
    rw [List.any_eq_true]
    exact exists_congr fun s => and_congr_right fun hs =>
      (hw.isStraight_of_mem hs).intersectsRect_pad_iff hδ hδ'
  unfold touches RunsThrough
  split
  · next cell hpath =>
    have hnone : w.segments = [] := by
      unfold segments
      rw [hpath]
      rfl
    rw [Rect.contains_pad_ofPoint_iff hδ hδ', hpath, hnone]
    simp [eq_comm]
  · next hmany =>
    rw [hsegments, iff_or_self]
    intro hpos
    cases hpath : w.path with
    | nil => exact absurd (hpath ▸ hpos) List.not_mem_nil
    | cons a rest =>
      cases rest with
      | nil => exact absurd hpath (hmany a)
      | cons b rest =>
        obtain ⟨s, hs, hend⟩ := exists_end_of_mem (hpath ▸ hpos)
        have hmem : s ∈ w.segments := by
          unfold segments
          rw [hpath]
          exact hs
        refine ⟨s, hmem, ?_⟩
        rcases hend with rfl | rfl
        · exact (hw.isStraight_of_mem hmem).runsOver_start
        · exact (hw.isStraight_of_mem hmem).runsOver_stop

end Wire

namespace Chip

variable {c d : Chip} {types : TypeLookup} {pos : Vec}

/-! ## §2. Bodies. -/

/-- Chips overlap exactly if they cover a cell in common. -/
theorem overlap_pos_iff : (coord 0 : ℚ) < c.overlap d types ↔
    ∃ cell, c.Covers types cell ∧ d.Covers types cell :=
  Rect.overlapArea_pad_pos_iff

theorem contains_pad_rect_iff {δ : ℚ} (hδ : 0 ≤ δ) (hδ' : δ < 1) :
    ((c.rect types : Rect ℚ).pad δ).contains (coord pos.x) (coord pos.y) = true ↔
      c.Covers types pos :=
  Rect.contains_pad_iff hδ hδ'

end Chip

namespace Content

/-- The chips stand in rising order of their names. -/
theorem chips_rising (c : Content) : c.chips.values.Pairwise fun a b => a.id < b.id := by
  unfold Table.values
  rw [List.pairwise_map]
  refine c.chips.rising.imp_of_mem fun ha hb h => ?_
  rw [c.keyed _ ha, c.keyed _ hb]
  exact h

end Content

namespace Editor

/-! ## §3. What a position picks. -/

/-- **A position picks the first wire whose path runs through it.** -/
theorem wireAt?_exact (e : Editor) (pos : Vec) (h : ∀ w ∈ e.content.wires, w.IsStraight) :
    e.wireAt? ℚ pos = e.content.wires.find? fun w => decide (w.RunsThrough pos) := by
  unfold wireAt?
  refine List.find?_congr fun w hw => ?_
  rw [Bool.eq_iff_iff, decide_eq_true_eq]
  exact (h w hw).touches_pad_iff (by norm_num) (by norm_num)

/-- Three wires across one board; the second one turns back on its way, and the third one is a
single cell. -/
def threeWires : Editor where
  owner := ⟨"top"⟩
  content :=
    { Content.ofSize ⟨9, 9⟩ with
      wires :=
        [ { Wire.between ⟨⟨"a"⟩, true, ""⟩ ⟨⟨"b"⟩, false, ""⟩ 0 with path := [⟨0, 2⟩, ⟨9, 2⟩] },
          { Wire.between ⟨⟨"c"⟩, true, ""⟩ ⟨⟨"d"⟩, false, ""⟩ 0 with
            path := [⟨4, 0⟩, ⟨4, 8⟩, ⟨4, 8⟩, ⟨4, 6⟩, ⟨7, 6⟩] },
          { Wire.between ⟨⟨"e"⟩, true, ""⟩ ⟨⟨"f"⟩, false, ""⟩ 0 with path := [⟨8, 5⟩] } ] }
  settings := {}

/-- Where two wires cross, the first one is picked. -/
theorem wireAt?_threeWires : (∀ w ∈ threeWires.content.wires, w.IsStraight) ∧
    threeWires.wireAt? ℚ ⟨4, 2⟩ = threeWires.content.wires[0]? ∧
    threeWires.wireAt? ℚ ⟨4, 7⟩ = threeWires.content.wires[1]? ∧
    threeWires.wireAt? ℚ ⟨8, 5⟩ = threeWires.content.wires[2]? ∧
    threeWires.wireAt? ℚ ⟨6, 5⟩ = none := by
  have h : ∀ w ∈ threeWires.content.wires, w.IsStraight := by
    unfold Wire.IsStraight
    decide
  refine ⟨h, ?_, ?_, ?_, ?_⟩
  · rw [wireAt?_exact threeWires _ h]
    decide
  · rw [wireAt?_exact threeWires _ h]
    decide
  · rw [wireAt?_exact threeWires _ h]
    decide
  · rw [wireAt?_exact threeWires _ h]
    decide

/-- A chip overlaps the others that have a cell in common with it. -/
theorem overlapping_eq (e : Editor) (types : TypeLookup) (c : Chip) :
    e.overlapping ℚ types c = e.content.chips.values.filter fun other =>
      decide (other.id ≠ c.id ∧
        ∃ cell ∈ (e.board types).bodyCells other, cell ∈ (e.board types).bodyCells c) := by
  refine List.filter_congr fun other _ => ?_
  have hcells : (∃ cell ∈ (e.board types).bodyCells other, cell ∈ (e.board types).bodyCells c) ↔
      ∃ cell, other.Covers types cell ∧ c.Covers types cell :=
    exists_congr fun cell => and_congr Board.mem_bodyCells Board.mem_bodyCells
  rw [Bool.eq_iff_iff, decide_eq_true_eq, hcells, Bool.and_eq_true, decide_eq_true_eq,
    decide_eq_true_eq, Chip.overlap_pos_iff]

/-- Of two chips on the board, one overlaps the other as soon as it is overlapped by it. -/
theorem mem_overlapping_comm {e : Editor} {types : TypeLookup} {c d : Chip}
    (h : c ∈ e.content.chips.values ∧ d ∈ e.overlapping ℚ types c) :
    d ∈ e.content.chips.values ∧ c ∈ e.overlapping ℚ types d := by
  rw [overlapping_eq, List.mem_filter, decide_eq_true_eq] at h ⊢
  obtain ⟨hc, hd, hne, cell, hcell, hcell'⟩ := h
  exact ⟨hd, hc, hne.symm, cell, hcell', hcell⟩

/-- **Overlaps and positions agree with the cells that the router keeps free for chips.**  A chip
overlaps the others that have a cell in common with it, so on a board chips overlap each other,
and a position picks the chip with the least name of those that cover it. -/
theorem positions_of_chips (e : Editor) (types : TypeLookup) :
    (∀ c, e.overlapping ℚ types c = e.content.chips.values.filter fun other =>
        decide (other.id ≠ c.id ∧
          ∃ cell ∈ (e.board types).bodyCells other, cell ∈ (e.board types).bodyCells c)) ∧
      (∀ c d, c ∈ e.content.chips.values ∧ d ∈ e.overlapping ℚ types c ↔
        d ∈ e.content.chips.values ∧ c ∈ e.overlapping ℚ types d) ∧
      (∀ pos, e.chipAt? ℚ types pos =
        e.content.chips.values.find? fun c => decide (pos ∈ (e.board types).bodyCells c)) ∧
      e.content.chips.values.Pairwise fun c d => c.id < d.id := by
  refine ⟨e.overlapping_eq types, fun c d => ⟨mem_overlapping_comm, mem_overlapping_comm⟩,
    fun pos => ?_, e.content.chips_rising⟩
  refine List.find?_congr fun c _ => ?_
  rw [Bool.eq_iff_iff, decide_eq_true_eq, Board.mem_bodyCells]
  exact Chip.contains_pad_rect_iff (by norm_num) (by norm_num)

end Editor

end LogicBoard
