/-
  LogicBoard.Proofs.Geometry.Meeting
  ────────────────────────────────
  **SEGMENTS ON THE BOARD.**

  Segments between cells are tested in floating point.  As long as the board
  is not too large the test is exact: it says whether the segments have a
  point of the plane in common.

  Main statement: `intersects_exact`.
-/
import LogicBoard.Proofs.Geometry.Segments
import LogicBoard.Proofs.Geometry.WholeFloats

namespace LogicBoard

open WholeFloat

/-- No coordinate of the point is greater than the bound. -/
def Vec.IsNear (p : Vec) (bound : Nat) : Prop := p.x.natAbs ≤ bound ∧ p.y.natAbs ≤ bound

instance (p : Vec) (bound : Nat) : Decidable (p.IsNear bound) :=
  inferInstanceAs (Decidable (_ ∧ _))

namespace Segment

/-! ## §1. Segments that are not too far away. -/

/-- Both ends of the segment are within the bound. -/
def IsNear (s : Segment) (bound : Nat) : Prop := s.start.IsNear bound ∧ s.stop.IsNear bound

instance (s : Segment) (bound : Nat) : Decidable (s.IsNear bound) :=
  inferInstanceAs (Decidable (_ ∧ _))

/-- The farthest that coordinates may be for turns to fit into a float. -/
def reach : Nat := 2 ^ 25

theorem isWhole_coord_of_le {n : Int} (hn : n.natAbs ≤ reach) : IsWhole (coord n) n :=
  isWhole_coord (hn.trans_lt (by decide))

theorem isWhole_sub {m n : Int} (hm : m.natAbs ≤ reach) (hn : n.natAbs ≤ reach) :
    IsWhole (coord m - coord n) (m - n) ∧ (m - n).natAbs ≤ 2 * reach := by
  have hle : (m - n).natAbs ≤ 2 * reach := by omega
  exact ⟨(isWhole_coord_of_le hm).sub (isWhole_coord_of_le hn) (hle.trans (by decide)), hle⟩

theorem isWhole_mul {x y : Float} {m n : Int} (hx : IsWhole x m ∧ m.natAbs ≤ 2 * reach)
    (hy : IsWhole y n ∧ n.natAbs ≤ 2 * reach) :
    IsWhole (x * y) (m * n) ∧ (m * n).natAbs ≤ 2 ^ 52 := by
  have hle : (m * n).natAbs ≤ 2 ^ 52 := by
    calc (m * n).natAbs = m.natAbs * n.natAbs := Int.natAbs_mul m n
      _ ≤ 2 * reach * (2 * reach) := Nat.mul_le_mul hx.2 hy.2
      _ = 2 ^ 52 := by decide
  exact ⟨hx.1.mul hy.1 (hle.trans (by decide)), hle⟩

/-- Floats measure the points within reach. -/
theorem measures_float : Measures IsWhole (Vec.IsNear · reach) where
  le_iff := IsWhole.le_iff
  lt_iff := IsWhole.lt_iff
  beq_iff := IsWhole.beq_iff
  min := IsWhole.min
  max := IsWhole.max
  zero := isWhole_coord (by decide)
  point hp := ⟨isWhole_coord_of_le hp.1, isWhole_coord_of_le hp.2⟩
  turn := by
    intro p q r hp hq hr
    obtain ⟨hleft, hleft'⟩ := isWhole_mul (isWhole_sub hq.1 hp.1) (isWhole_sub hr.2 hp.2)
    obtain ⟨hright, hright'⟩ := isWhole_mul (isWhole_sub hq.2 hp.2) (isWhole_sub hr.1 hp.1)
    refine hleft.sub hright ((Int.natAbs_sub_le _ _).trans ?_)
    exact (Nat.add_le_add hleft' hright').trans (by decide)

theorem intersects_float {s t : Segment} (hs : s.IsNear reach) (ht : t.IsNear reach) :
    s.intersects Float t = s.intersects Int t :=
  measures_float.meet_eq hs.1 hs.2 ht.1 ht.2

/-! ## §2. Points of the plane. -/

/-- The points of the plane that lie on the segment, its ends included. -/
def points (s : Segment) : Set (ℝ × ℝ) := segment ℝ (planePoint s.start) (planePoint s.stop)

/-- The segment in the other direction. -/
def reversed (s : Segment) : Segment := ⟨s.stop, s.start⟩

theorem points_reversed (s : Segment) : s.reversed.points = s.points :=
  segment_symm ℝ _ _

theorem intersects_int_iff {s t : Segment} :
    s.intersects Int t = true ↔ (s.points ∩ t.points).Nonempty := by
  have hreal : s.intersects ℝ t = s.intersects Int t :=
    measures_exact.meet_eq trivial trivial trivial trivial
  rw [← hreal]
  exact meet_iff_nonempty

/-- Within reach, segments are found to meet exactly if some point of the plane is on both of them;
so neither their order nor their directions matter. -/
theorem intersects_exact {s t : Segment} (hs : s.IsNear (2 ^ 25)) (ht : t.IsNear (2 ^ 25)) :
    (s.intersects Float t = true ↔ (s.points ∩ t.points).Nonempty) ∧
      t.intersects Float s = s.intersects Float t ∧
      s.reversed.intersects Float t = s.intersects Float t ∧
      s.intersects Float t.reversed = s.intersects Float t := by
  have hs' : s.reversed.IsNear (2 ^ 25) := ⟨hs.2, hs.1⟩
  have ht' : t.reversed.IsNear (2 ^ 25) := ⟨ht.2, ht.1⟩
  rw [intersects_float hs ht, intersects_float ht hs, intersects_float hs' ht,
    intersects_float hs ht']
  refine ⟨intersects_int_iff, ?_, ?_, ?_⟩
  · rw [Bool.eq_iff_iff, intersects_int_iff, intersects_int_iff, Set.inter_comm]
  · rw [Bool.eq_iff_iff, intersects_int_iff, intersects_int_iff, points_reversed]
  · rw [Bool.eq_iff_iff, intersects_int_iff, intersects_int_iff, points_reversed]

/-- A segment through the origin, from one end of the reach to the other. -/
def farDiagonal : Segment := ⟨⟨-2 ^ 25, 2 ^ 25⟩, ⟨2 ^ 25, -2 ^ 25⟩⟩

/-- A segment that ends in the middle of the other one. -/
def farSpoke : Segment := ⟨⟨2 ^ 25, 2 ^ 25⟩, ⟨0, 0⟩⟩

theorem intersects_farDiagonal :
    farDiagonal.IsNear (2 ^ 25) ∧ farSpoke.IsNear (2 ^ 25) ∧
      farDiagonal.intersects Float farSpoke = true ∧
      (farDiagonal.points ∩ farSpoke.points).Nonempty ∧
      farSpoke.intersects Float farDiagonal = true := by
  have hdiagonal : farDiagonal.IsNear (2 ^ 25) := by decide
  have hspoke : farSpoke.IsNear (2 ^ 25) := by decide
  have hmeet : farDiagonal.intersects Float farSpoke = true := by decide +kernel
  obtain ⟨hpoint, hswap, -⟩ := intersects_exact hdiagonal hspoke
  exact ⟨hdiagonal, hspoke, hmeet, hpoint.1 hmeet, hswap.trans hmeet⟩

end Segment

end LogicBoard
