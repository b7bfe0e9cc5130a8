/-
  LogicBoard.Proofs.Geometry.Rects
  ────────────────────────────────
  **PADDED RECTANGLES AND THE CELLS IN THEM.**

  Bodies and cells are padded by fractions of a cell before they are tested.
  With less than a whole cell of padding no further cell comes in, so every
  test answers a question about cells: which cells a rectangle has, whether
  two rectangles have one in common, whether a straight segment runs over one.

  Main statements:
    • `contains_pad_iff` — padding brings no further cells in,
    • `overlapArea_pad_pos_iff` — with half a cell of padding two rectangles
      share an area exactly if they have a cell in common,
    • `intersectsRect_pad_iff` — a straight segment touches a padded cell
      exactly if it runs over the cell.
-/
import LogicBoard.Proofs.Geometry.Segments

namespace LogicBoard

/-! ## §1. Whole numbers and fractions. -/

theorem sub_le_cast_iff {δ : ℚ} (hδ : 0 ≤ δ) (hδ' : δ < 1) {m n : Int} :
    (m : ℚ) - δ ≤ n ↔ m ≤ n := by
  constructor
  · intro h
    have hlt : (m : ℚ) < (n + 1 : Int) := by
      push_cast
      linarith
    exact Int.le_of_lt_add_one (Int.cast_lt.1 hlt)
  · intro h
    have : (m : ℚ) ≤ n := Int.cast_le.2 h
    linarith

theorem cast_le_add_iff {δ : ℚ} (hδ : 0 ≤ δ) (hδ' : δ < 1) {m n : Int} :
    (m : ℚ) ≤ n + δ ↔ m ≤ n := by
  rw [← sub_le_iff_le_add]
  exact sub_le_cast_iff hδ hδ'

/-- Half a cell of padding on both sides is a whole cell. -/
theorem sub_half_lt_add_half_iff {m n : Int} : (m : ℚ) - 0.5 < n + 0.5 ↔ m ≤ n := by
  have hone : (m : ℚ) - 0.5 < n + 0.5 ↔ (m : ℚ) < (n + 1 : Int) := by
    push_cast
    constructor <;> intro h <;> linarith
  rw [hone, Int.cast_lt, Int.lt_add_one_iff]

namespace Rect

variable {p q r s : Vec}

/-! ## §2. Cells. -/

theorem contains_iff {t : Rect ℚ} {x y : ℚ} : t.contains x y = true ↔
    (t.left ≤ x ∧ x ≤ t.right) ∧ t.top ≤ y ∧ y ≤ t.bottom := by
  unfold contains
  simp only [Bool.and_eq_true, decide_eq_true_eq, and_assoc]

/-- Padding by less than a cell brings no further cells in. -/
theorem contains_pad_iff {δ : ℚ} (hδ : 0 ≤ δ) (hδ' : δ < 1) {x y : Int} :
    ((ofCorners p q : Rect ℚ).pad δ).contains (coord x) (coord y) = true ↔
      (p.x ≤ x ∧ x ≤ q.x) ∧ p.y ≤ y ∧ y ≤ q.y := by
  rw [contains_iff]
  show ((p.x : ℚ) - δ ≤ x ∧ (x : ℚ) ≤ q.x + δ) ∧ (p.y : ℚ) - δ ≤ y ∧ (y : ℚ) ≤ q.y + δ ↔ _
  rw [sub_le_cast_iff hδ hδ', sub_le_cast_iff hδ hδ', cast_le_add_iff hδ hδ',
    cast_le_add_iff hδ hδ']

theorem contains_pad_ofPoint_iff {δ : ℚ} (hδ : 0 ≤ δ) (hδ' : δ < 1) {cell : Vec} :
    ((ofPoint p : Rect ℚ).pad δ).contains (coord cell.x) (coord cell.y) = true ↔ cell = p := by
  unfold ofPoint
  rw [contains_pad_iff hδ hδ', Vec.ext_iff]
  constructor
  · rintro ⟨⟨h1, h2⟩, h3, h4⟩
    exact ⟨le_antisymm h2 h1, le_antisymm h4 h3⟩
  · rintro ⟨h1, h2⟩
    exact ⟨⟨h1.ge, h1.le⟩, h2.ge, h2.le⟩

/-! ## §3. Areas. -/

/-- Two spans with half a cell of padding have a common part exactly if they have a cell in
common. -/
theorem span_pos_iff {a a' b b' : Int} :
    0 < min ((a' : ℚ) + 0.5) (b' + 0.5) - max ((a : ℚ) - 0.5) (b - 0.5) ↔
      ∃ n, (a ≤ n ∧ n ≤ a') ∧ b ≤ n ∧ n ≤ b' := by
  rw [sub_pos, max_lt_iff, lt_min_iff, lt_min_iff]
  simp only [sub_half_lt_add_half_iff]
  constructor
  · rintro ⟨⟨h1, h2⟩, h3, h4⟩
    exact ⟨max a b, by omega, by omega⟩
  · rintro ⟨n, h1, h2⟩
    omega

theorem max_mul_max_pos_iff {x y : ℚ} : 0 < max x 0 * max y 0 ↔ 0 < x ∧ 0 < y := by
  have hzero : ∀ z : ℚ, 0 < max z 0 ↔ 0 < z := fun z => by simp
  constructor
  · intro h
    have hx := pos_of_mul_pos_left h (le_max_right y 0)
    have hy := pos_of_mul_pos_right h (le_max_right x 0)
    exact ⟨(hzero x).1 hx, (hzero y).1 hy⟩
  · rintro ⟨hx, hy⟩
    exact mul_pos ((hzero x).2 hx) ((hzero y).2 hy)

/-- With half a cell of padding two rectangles share an area exactly if they have a cell in
common. -/
theorem overlapArea_pad_pos_iff :
    (coord 0 : ℚ) < ((ofCorners p q).pad 0.5).overlapArea ((ofCorners r s).pad 0.5) ↔
      ∃ cell : Vec, ((p.x ≤ cell.x ∧ cell.x ≤ q.x) ∧ p.y ≤ cell.y ∧ cell.y ≤ q.y) ∧
        (r.x ≤ cell.x ∧ cell.x ≤ s.x) ∧ r.y ≤ cell.y ∧ cell.y ≤ s.y := by
  show (0 : ℚ) < max _ 0 * max _ 0 ↔ _
  rw [max_mul_max_pos_iff]
  show 0 < min ((q.x : ℚ) + 0.5) (s.x + 0.5) - max ((p.x : ℚ) - 0.5) (r.x - 0.5) ∧
    0 < min ((q.y : ℚ) + 0.5) (s.y + 0.5) - max ((p.y : ℚ) - 0.5) (r.y - 0.5) ↔ _
  rw [span_pos_iff, span_pos_iff]
  constructor
  · rintro ⟨⟨x, hx, hx'⟩, y, hy, hy'⟩
    exact ⟨⟨x, y⟩, ⟨hx, hy⟩, hx', hy'⟩
  · rintro ⟨cell, ⟨hx, hy⟩, hx', hy'⟩
    exact ⟨⟨cell.x, hx, hx'⟩, cell.y, hy, hy'⟩

end Rect

namespace Segment

/-! ## §4. Straight segments. -/

/-- The segment stays in one row or one column. -/
def IsStraight (s : Segment) : Prop := s.start.x = s.stop.x ∨ s.start.y = s.stop.y

/-- The segment runs over the cell: along its column or along its row. -/
def RunsOver (s : Segment) (cell : Vec) : Prop :=
  (s.start.x = cell.x ∧ s.stop.x = cell.x ∧
      min s.start.y s.stop.y ≤ cell.y ∧ cell.y ≤ max s.start.y s.stop.y) ∨
    (s.start.y = cell.y ∧ s.stop.y = cell.y ∧
      min s.start.x s.stop.x ≤ cell.x ∧ cell.x ≤ max s.start.x s.stop.x)

instance (s : Segment) (cell : Vec) : Decidable (s.RunsOver cell) :=
  inferInstanceAs (Decidable (_ ∨ _))

variable {a b : ℚ × ℚ} {t : Rect ℚ}

/-- What a segment between two points of a rectangle has in common with another one is in the
rectangle. -/
theorem exists_mem_of_meet {x y x' y' : ℚ} (hc : t.contains x y = true)
    (hd : t.contains x' y' = true) (h : meet (K := ℚ) a b (x, y) (x', y') = true) :
    ∃ p ∈ segment ℚ a b, t.contains p.1 p.2 = true := by
  obtain ⟨p, hab, hcd⟩ := meet_iff_nonempty.1 h
  obtain ⟨hx, hy⟩ := inBox_iff.1 (mem_segment_iff_inBox.1 hcd).2
  rw [Rect.contains_iff] at hc hd
  refine ⟨p, hab, Rect.contains_iff.2 ⟨?_, ?_⟩⟩
  · exact Set.uIcc_subset_Icc hc.1 hd.1 hx
  · exact Set.uIcc_subset_Icc hc.2 hd.2 hy

/-- A segment that touches a rectangle has a point in it. -/
theorem exists_mem_of_intersectsRect {s : Segment} (hx : t.left ≤ t.right) (hy : t.top ≤ t.bottom)
    (h : s.intersectsRect t = true) :
    ∃ p ∈ segment ℚ (planePoint s.start) (planePoint s.stop), t.contains p.1 p.2 = true := by
  have htl : t.contains t.left t.top = true := Rect.contains_iff.2 ⟨⟨le_rfl, hx⟩, le_rfl, hy⟩
  have htr : t.contains t.right t.top = true := Rect.contains_iff.2 ⟨⟨hx, le_rfl⟩, le_rfl, hy⟩
  have hbl : t.contains t.left t.bottom = true := Rect.contains_iff.2 ⟨⟨le_rfl, hx⟩, hy, le_rfl⟩
  have hbr : t.contains t.right t.bottom = true := Rect.contains_iff.2 ⟨⟨hx, le_rfl⟩, hy, le_rfl⟩
  unfold intersectsRect at h
  simp only [Bool.or_eq_true, or_assoc] at h
  rcases h with h | h | h | h | h | h
  · exact ⟨_, left_mem_segment ℚ _ _, h⟩
  · exact ⟨_, right_mem_segment ℚ _ _, h⟩
  · exact exists_mem_of_meet htl htr h
  · exact exists_mem_of_meet htr hbr h
  · exact exists_mem_of_meet hbr hbl h
  · exact exists_mem_of_meet hbl htl h

section Padded

variable {s : Segment} {pos : Vec} {δ : ℚ}

theorem IsStraight.runsOver_start (hs : s.IsStraight) : s.RunsOver s.start := by
  unfold IsStraight at hs
  unfold RunsOver
  omega

theorem IsStraight.runsOver_stop (hs : s.IsStraight) : s.RunsOver s.stop := by
  unfold IsStraight at hs
  unfold RunsOver
  omega

/-- A straight segment with a point in the padded cell runs over the cell. -/
theorem IsStraight.runsOver_of_mem (hs : s.IsStraight) (hδ : 0 ≤ δ) (hδ' : δ < 1) {p : ℚ × ℚ}
    (hp : p ∈ segment ℚ (planePoint s.start) (planePoint s.stop))
    (hcell : ((Rect.ofPoint pos : Rect ℚ).pad δ).contains p.1 p.2 = true) : s.RunsOver pos := by
  obtain ⟨⟨hleft, hright⟩, htop, hbottom⟩ := Rect.contains_iff.1 hcell
  change (pos.x : ℚ) - δ ≤ p.1 at hleft
  change p.1 ≤ (pos.x : ℚ) + δ at hright
  change (pos.y : ℚ) - δ ≤ p.2 at htop
  change p.2 ≤ (pos.y : ℚ) + δ at hbottom
  obtain ⟨⟨hx, hx'⟩, hy, hy'⟩ := inBox_iff.1 (mem_segment_iff_inBox.1 hp).2
  change min (s.start.x : ℚ) s.stop.x ≤ p.1 at hx
  change p.1 ≤ max (s.start.x : ℚ) s.stop.x at hx'
  change min (s.start.y : ℚ) s.stop.y ≤ p.2 at hy
  change p.2 ≤ max (s.start.y : ℚ) s.stop.y at hy'
  rw [← Int.cast_min] at hx hy
  rw [← Int.cast_max] at hx' hy'
  have h1 := (cast_le_add_iff hδ hδ').1 (hx.trans hright)
  have h2 := (sub_le_cast_iff hδ hδ').1 (hleft.trans hx')
  have h3 := (cast_le_add_iff hδ hδ').1 (hy.trans hbottom)
  have h4 := (sub_le_cast_iff hδ hδ').1 (htop.trans hy')
  unfold IsStraight at hs
  unfold RunsOver
  omega

theorem mem_column {x y y₁ y₂ : ℚ} (h : y ∈ Set.uIcc y₁ y₂) :
    (x, y) ∈ segment ℚ (x, y₁) (x, y₂) := by
  rw [← Prod.image_mk_segment_right, segment_eq_uIcc]
  exact Set.mem_image_of_mem _ h

theorem mem_row {x x₁ x₂ y : ℚ} (h : x ∈ Set.uIcc x₁ x₂) :
    (x, y) ∈ segment ℚ (x₁, y) (x₂, y) := by
  rw [← Prod.image_mk_segment_left, segment_eq_uIcc]
  exact Set.mem_image_of_mem _ h

/-- The edge of a padded cell lies on the way from one side of the cell to the other. -/
theorem sub_mem_uIcc (hδ : 0 ≤ δ) (hδ' : δ < 1) {m n k : Int} (hmin : min m n < k)
    (hmax : k < max m n) : (k : ℚ) - δ ∈ Set.uIcc (m : ℚ) n := by
  have hlow : ((min m n : Int) : ℚ) + 1 ≤ k := by exact_mod_cast hmin
  have hhigh : (k : ℚ) ≤ (max m n : Int) := by exact_mod_cast hmax.le
  rw [Int.cast_min] at hlow
  rw [Int.cast_max] at hhigh
  exact ⟨by linarith, by linarith⟩

theorem mem_pad_uIcc (hδ : 0 ≤ δ) (k : Int) : (k : ℚ) ∈ Set.uIcc ((k : ℚ) - δ) (k + δ) :=
  Set.mem_uIcc_of_le (by linarith) (by linarith)

/-- A segment along the column of a cell that passes it crosses the upper edge of the padded
cell. -/
theorem meet_top (hδ : 0 ≤ δ) (hδ' : δ < 1) (hstart : s.start.x = pos.x) (hstop : s.stop.x = pos.x)
    (hmin : min s.start.y s.stop.y < pos.y) (hmax : pos.y < max s.start.y s.stop.y) :
    meet (K := ℚ) (planePoint s.start) (planePoint s.stop)
      (pos.x - δ, pos.y - δ) (pos.x + δ, pos.y - δ) = true := by
  refine meet_iff_nonempty.2 ⟨((pos.x : ℚ), (pos.y : ℚ) - δ), ?_, mem_row (mem_pad_uIcc hδ pos.x)⟩
  unfold planePoint
  rw [hstart, hstop]
  exact mem_column (sub_mem_uIcc hδ hδ' hmin hmax)

/-- A segment along the row of a cell that passes it crosses the left edge of the padded cell. -/
theorem meet_left (hδ : 0 ≤ δ) (hδ' : δ < 1) (hstart : s.start.y = pos.y)
    (hstop : s.stop.y = pos.y) (hmin : min s.start.x s.stop.x < pos.x)
    (hmax : pos.x < max s.start.x s.stop.x) :
    meet (K := ℚ) (planePoint s.start) (planePoint s.stop)
      (pos.x - δ, pos.y + δ) (pos.x - δ, pos.y - δ) = true := by
  refine meet_iff_nonempty.2 ⟨((pos.x : ℚ) - δ, (pos.y : ℚ)), ?_, mem_column ?_⟩
  · unfold planePoint
    rw [hstart, hstop]
    exact mem_row (sub_mem_uIcc hδ hδ' hmin hmax)
  · rw [Set.uIcc_comm]
    exact mem_pad_uIcc hδ pos.y

/-- A segment that runs over a cell ends there or passes it along its column or its row. -/
theorem RunsOver.cases (h : s.RunsOver pos) : (s.start = pos ∨ s.stop = pos) ∨
    (s.start.x = pos.x ∧ s.stop.x = pos.x ∧
      min s.start.y s.stop.y < pos.y ∧ pos.y < max s.start.y s.stop.y) ∨
    (s.start.y = pos.y ∧ s.stop.y = pos.y ∧
      min s.start.x s.stop.x < pos.x ∧ pos.x < max s.start.x s.stop.x) := by
  unfold RunsOver at h
  rw [Vec.ext_iff, Vec.ext_iff]
  omega

/-- **A straight segment touches a padded cell exactly if it runs over the cell.** -/
theorem IsStraight.intersectsRect_pad_iff (hs : s.IsStraight) (hδ : 0 ≤ δ) (hδ' : δ < 1) :
    s.intersectsRect ((Rect.ofPoint pos : Rect ℚ).pad δ) = true ↔ s.RunsOver pos := by
  refine ⟨fun h => ?_, fun h => ?_⟩
  · obtain ⟨p, hp, hcell⟩ := exists_mem_of_intersectsRect
      (show (pos.x : ℚ) - δ ≤ pos.x + δ by linarith) (show (pos.y : ℚ) - δ ≤ pos.y + δ by linarith) h
    exact hs.runsOver_of_mem hδ hδ' hp hcell
  · unfold intersectsRect
    simp only [Bool.or_eq_true, or_assoc]
    rcases h.cases with (h | h) | ⟨hstart, hstop, hmin, hmax⟩ | ⟨hstart, hstop, hmin, hmax⟩
    · exact .inl ((Rect.contains_pad_ofPoint_iff hδ hδ').2 h)
    · exact .inr (.inl ((Rect.contains_pad_ofPoint_iff hδ hδ').2 h))
    · exact .inr (.inr (.inl (meet_top hδ hδ' hstart hstop hmin hmax)))
    · exact .inr (.inr (.inr (.inr (.inr (meet_left hδ hδ' hstart hstop hmin hmax)))))

end Padded

end Segment

end LogicBoard
