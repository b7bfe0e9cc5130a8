/-
  LogicBoard.Proofs.Geometry.Segments
  ────────────────────────────────
  **WHEN SEGMENTS MEET.**

  Two segments meet if they cross or an end of one lies on the other.  Seen
  as sets of points, this is all that can happen: the turn of the ends of one
  segment around the other changes evenly along the way, and at a point in
  common it is zero.  So either it changes its side there, or everything is on
  one line, and then one segment begins inside the other.

  Main statements:
    • `mem_segment_iff_inBox` — a point is on a segment if it is on its line
      and in its box,
    • `meet_iff_nonempty` — segments meet exactly if they have a point in common,
    • `Measures.meet_eq` — numbers that hold the points exactly find the same
      segments to meet.
-/
import LogicBoard.Geometry.Rect
import Mathlib

namespace LogicBoard

universe u

/-! ## §1. Numbers of the plane. -/

/-- Whole coordinates are measured by the whole numbers that they are. -/
class ExactCoordinate (K : Type u) [Ring K] [Coordinate K] : Prop where
  coord_eq (n : Int) : (coord n : K) = n

instance : ExactCoordinate Int := ⟨fun _ => rfl⟩

instance : ExactCoordinate Rat := ⟨fun _ => rfl⟩

noncomputable instance : Coordinate ℝ := ⟨fun n => n⟩

instance : ExactCoordinate ℝ := ⟨fun _ => rfl⟩

export ExactCoordinate (coord_eq)

namespace Segment

section Turning

variable {K : Type u} [CommRing K] (a b c d : K × K) (t : K)

/-! ## §2. Turning. -/

/-- On its own line a segment does not turn. -/
theorem turn_along : turn a b (a + t • (b - a)) = 0 := by
  simp only [turn, Prod.fst_add, Prod.snd_add, Prod.smul_fst, Prod.smul_snd, Prod.fst_sub,
    Prod.snd_sub, smul_eq_mul]
  ring

/-- Along a segment the turn changes evenly. -/
theorem turn_between :
    turn a b (c + t • (d - c)) = (1 - t) * turn a b c + t * turn a b d := by
  simp only [turn, Prod.fst_add, Prod.snd_add, Prod.smul_fst, Prod.smul_snd, Prod.fst_sub,
    Prod.snd_sub, smul_eq_mul]
  ring

end Turning

variable {K : Type u} [Field K] [LinearOrder K] [IsStrictOrderedRing K] {a b c d p : K × K}

/-! ## §3. Points of a segment. -/

theorem mem_segment_iff : p ∈ segment K a b ↔ ∃ t : K, (0 ≤ t ∧ t ≤ 1) ∧ a + t • (b - a) = p := by
  rw [segment_eq_image', Set.mem_image]
  rfl

omit [LinearOrder K] [IsStrictOrderedRing K] in
/-- What does not turn away from a line is on it. -/
theorem exists_along (hne : a ≠ b) (h : turn a b p = 0) : ∃ t : K, a + t • (b - a) = p := by
  unfold turn at h
  by_cases hx : b.1 - a.1 = 0
  · have hy : b.2 - a.2 ≠ 0 := fun hy =>
      hne (Prod.ext (sub_eq_zero.1 hx).symm (sub_eq_zero.1 hy).symm)
    refine ⟨(p.2 - a.2) / (b.2 - a.2), Prod.ext ?_ ?_⟩
    · simp only [Prod.fst_add, Prod.smul_fst, Prod.fst_sub, smul_eq_mul]
      field_simp
      linear_combination h
    · simp only [Prod.snd_add, Prod.smul_snd, Prod.snd_sub, smul_eq_mul]
      field_simp
      ring
  · refine ⟨(p.1 - a.1) / (b.1 - a.1), Prod.ext ?_ ?_⟩
    · simp only [Prod.fst_add, Prod.smul_fst, Prod.fst_sub, smul_eq_mul]
      field_simp
      ring
    · simp only [Prod.snd_add, Prod.smul_snd, Prod.snd_sub, smul_eq_mul]
      field_simp
      linear_combination -h

/-- What lies between two numbers is reached at some part of the way. -/
theorem exists_part {x y z : K} (h : z ∈ Set.uIcc x y) :
    ∃ t : K, (0 ≤ t ∧ t ≤ 1) ∧ x + t * (y - x) = z := by
  rw [← segment_eq_uIcc, segment_eq_image', Set.mem_image] at h
  exact h

/-- A part of the way from one number to another that stays between them. -/
theorem part_of_mem_uIcc {x y t : K} (hne : x ≠ y) (h : x + t * (y - x) ∈ Set.uIcc x y) :
    0 ≤ t ∧ t ≤ 1 := by
  obtain ⟨s, hs, hst⟩ := exists_part h
  have hsame : s = t := mul_right_cancel₀ (sub_ne_zero.2 hne.symm) (add_left_cancel hst)
  exact hsame ▸ hs

omit [Field K] [IsStrictOrderedRing K] in
theorem inBox_iff : inBox a b p = true ↔ p.1 ∈ Set.uIcc a.1 b.1 ∧ p.2 ∈ Set.uIcc a.2 b.2 := by
  unfold inBox Set.uIcc
  simp only [Bool.and_eq_true, decide_eq_true_eq, Set.mem_Icc, and_assoc]

/-- The points of a segment are those on its line and in its box. -/
theorem mem_segment_iff_inBox : p ∈ segment K a b ↔ turn a b p = 0 ∧ inBox a b p = true := by
  rw [inBox_iff]
  constructor
  · intro hp
    refine ⟨?_, ?_⟩
    · obtain ⟨t, -, rfl⟩ := mem_segment_iff.1 hp
      exact turn_along a b t
    · obtain ⟨hx, hy⟩ := Prod.segment_subset a b hp
      rw [segment_eq_uIcc] at hx hy
      exact ⟨hx, hy⟩
  · rintro ⟨hturn, hx, hy⟩
    by_cases hab : a = b
    · subst hab
      rw [Set.uIcc_self] at hx hy
      rw [segment_same]
      exact Prod.ext hx hy
    · obtain ⟨t, rfl⟩ := exists_along hab hturn
      refine mem_segment_iff.2 ⟨t, ?_, rfl⟩
      by_cases h1 : a.1 = b.1
      · exact part_of_mem_uIcc (fun h2 => hab (Prod.ext h1 h2)) hy
      · exact part_of_mem_uIcc h1 hx

/-! ## §4. Crossing and touching. -/

variable [Coordinate K] [ExactCoordinate K]

omit [IsStrictOrderedRing K] in
theorem opposite_iff {s t : K} : opposite s t = true ↔ (0 < s ∧ t < 0) ∨ (s < 0 ∧ 0 < t) := by
  unfold opposite
  simp only [coord_eq, Int.cast_zero, Bool.or_eq_true, Bool.and_eq_true, decide_eq_true_eq]

/-- Segments meet if they cross or an end of one is a point of the other. -/
theorem meet_iff : meet a b c d = true ↔
    (opposite (turn a b c) (turn a b d) = true ∧ opposite (turn c d a) (turn c d b) = true) ∨
      (c ∈ segment K a b ∨ d ∈ segment K a b) ∨ (a ∈ segment K c d ∨ b ∈ segment K c d) := by
  simp only [mem_segment_iff_inBox]
  unfold meet
  simp only [coord_eq, Int.cast_zero, Bool.or_eq_true, Bool.and_eq_true, beq_iff_eq, or_assoc]

/-- On the way between numbers on different sides of zero, zero is reached. -/
theorem exists_part_of_opposite {s t : K} (h : opposite s t = true) :
    s - t ≠ 0 ∧ ∃ r : K, (0 ≤ r ∧ r ≤ 1) ∧ s + r * (t - s) = 0 := by
  rcases opposite_iff.1 h with ⟨hs, ht⟩ | ⟨hs, ht⟩
  · exact ⟨(sub_pos.2 (ht.trans hs)).ne', exists_part (Set.mem_uIcc_of_ge ht.le hs.le)⟩
  · exact ⟨(sub_neg.2 (hs.trans ht)).ne, exists_part (Set.mem_uIcc_of_le hs.le ht.le)⟩

/-- Where the ends of each of two segments are on different sides of the other one, they cross. -/
theorem nonempty_of_opposite (hab : opposite (turn a b c) (turn a b d) = true)
    (hcd : opposite (turn c d a) (turn c d b) = true) :
    (segment K a b ∩ segment K c d).Nonempty := by
  obtain ⟨hne, t, ht, htc⟩ := exists_part_of_opposite hab
  obtain ⟨-, s, hs, hsa⟩ := exists_part_of_opposite hcd
  -- Both parts of the way lead to the same point.
  have hpoint : a + s • (b - a) = c + t • (d - c) := by
    unfold turn at hne htc hsa
    refine Prod.ext (mul_left_cancel₀ hne ?_) (mul_left_cancel₀ hne ?_)
    · simp only [Prod.fst_add, Prod.smul_fst, Prod.fst_sub, smul_eq_mul]
      linear_combination (b.1 - a.1) * hsa + (d.1 - c.1) * htc
    · simp only [Prod.snd_add, Prod.smul_snd, Prod.snd_sub, smul_eq_mul]
      linear_combination (b.2 - a.2) * hsa + (d.2 - c.2) * htc
  exact ⟨_, mem_segment_iff.2 ⟨s, hs, rfl⟩, mem_segment_iff.2 ⟨t, ht, hpoint.symm⟩⟩

omit [LinearOrder K] [IsStrictOrderedRing K] [Coordinate K] [ExactCoordinate K] in
/-- A point of a line is at one part of the way only. -/
theorem along_injective (hne : a ≠ b) {s t : K} (h : a + s • (b - a) = a + t • (b - a)) :
    s = t := by
  have hsub : (s - t) • (b - a) = 0 := by
    rw [sub_smul, sub_eq_zero]
    exact add_left_cancel h
  rcases smul_eq_zero.1 hsub with hst | hba
  · exact sub_eq_zero.1 hst
  · exact absurd (sub_eq_zero.1 hba).symm hne

omit [Coordinate K] [ExactCoordinate K] in
/-- Of two segments of one line that have a point in common, one has an end in the other. -/
theorem touch_of_parallel (hne : a ≠ b) (hc : turn a b c = 0) (hd : turn a b d = 0)
    (hab : p ∈ segment K a b) (hcd : p ∈ segment K c d) :
    (c ∈ segment K a b ∨ d ∈ segment K a b) ∨ a ∈ segment K c d := by
  obtain ⟨u, rfl⟩ := exists_along hne hc
  obtain ⟨v, rfl⟩ := exists_along hne hd
  obtain ⟨s, hs, rfl⟩ := mem_segment_iff.1 hab
  obtain ⟨t, ht, hst⟩ := mem_segment_iff.1 hcd
  have hway : ∀ r : K, a + u • (b - a) + r • (a + v • (b - a) - (a + u • (b - a)))
      = a + (u + r * (v - u)) • (b - a) := fun r => by module
  -- What is left is a question of numbers: `s` is between 0 and 1 and between `u` and `v`.
  have huv : s ∈ Set.uIcc u v := by
    rw [← segment_eq_uIcc, segment_eq_image']
    exact ⟨t, ht, along_injective hne ((hway t).symm.trans hst)⟩
  have hzero : (0 : K) ∈ Set.uIcc u v → a ∈ segment K (a + u • (b - a)) (a + v • (b - a)) := by
    intro h
    obtain ⟨r, hr, hur⟩ := exists_part h
    refine mem_segment_iff.2 ⟨r, hr, ?_⟩
    rw [hway, hur, zero_smul, add_zero]
  rcases Set.mem_uIcc.1 huv with ⟨hus, hsv⟩ | ⟨hvs, hsu⟩
  · rcases le_total 0 u with hu | hu
    · exact .inl (.inl (mem_segment_iff.2 ⟨u, ⟨hu, hus.trans hs.2⟩, rfl⟩))
    · exact .inr (hzero (Set.mem_uIcc_of_le hu (hs.1.trans hsv)))
  · rcases le_total 0 v with hv | hv
    · exact .inl (.inr (mem_segment_iff.2 ⟨v, ⟨hv, hvs.trans hs.2⟩, rfl⟩))
    · exact .inr (hzero (Set.mem_uIcc_of_ge hv (hs.1.trans hsu)))

/-- If no end touches the other segment, a point in common puts the ends of one segment on
different sides of the other one. -/
theorem opposite_of_mem (hab : p ∈ segment K a b) (hcd : p ∈ segment K c d)
    (hends : ¬ (c ∈ segment K a b ∨ d ∈ segment K a b)) (ha : a ∉ segment K c d) :
    opposite (turn a b c) (turn a b d) = true := by
  have hne : a ≠ b := by
    rintro rfl
    rw [segment_same, Set.mem_singleton_iff] at hab
    exact ha (hab ▸ hcd)
  obtain ⟨s, -, hsp⟩ := mem_segment_iff.1 hab
  obtain ⟨t, ht, htp⟩ := mem_segment_iff.1 hcd
  -- The turn is zero at the point in common, so it changes its side there or is always zero.
  have hzero : (1 - t) * turn a b c + t * turn a b d = 0 := by
    rw [← turn_between, htp, ← hsp, turn_along]
  have hfirst : 0 < t := lt_of_le_of_ne ht.1 fun h => hends <| .inl <| by
    rw [← h, zero_smul, add_zero] at htp
    exact htp ▸ hab
  have hlast : 0 < 1 - t := sub_pos.2 <| lt_of_le_of_ne ht.2 fun h => hends <| .inr <| by
    rw [h, one_smul, add_sub_cancel] at htp
    exact htp ▸ hab
  rw [opposite_iff]
  rcases lt_trichotomy (turn a b c) 0 with hc | hc | hc
  · refine .inr ⟨hc, pos_of_mul_pos_right (a := t) ?_ hfirst.le⟩
    have := mul_neg_of_pos_of_neg hlast hc
    linarith
  · rw [hc, mul_zero, zero_add] at hzero
    have hd := (mul_eq_zero.1 hzero).resolve_left hfirst.ne'
    rcases touch_of_parallel hne hc hd hab hcd with h | h
    · exact absurd h hends
    · exact absurd h ha
  · refine .inl ⟨hc, neg_of_mul_neg_right (a := t) ?_ hfirst.le⟩
    have := mul_pos hlast hc
    linarith

/-- **Segments meet exactly if they have a point in common.** -/
theorem meet_iff_nonempty :
    meet a b c d = true ↔ (segment K a b ∩ segment K c d).Nonempty := by
  rw [meet_iff]
  constructor
  · rintro (⟨hab, hcd⟩ | (h | h) | h | h)
    · exact nonempty_of_opposite hab hcd
    · exact ⟨c, h, left_mem_segment K c d⟩
    · exact ⟨d, h, right_mem_segment K c d⟩
    · exact ⟨a, left_mem_segment K a b, h⟩
    · exact ⟨b, right_mem_segment K a b, h⟩
  · rintro ⟨p, hab, hcd⟩
    by_cases hends : c ∈ segment K a b ∨ d ∈ segment K a b
    · exact .inr (.inl hends)
    by_cases hends' : a ∈ segment K c d ∨ b ∈ segment K c d
    · exact .inr (.inr hends')
    rw [not_or] at hends hends'
    exact .inl ⟨opposite_of_mem hab hcd (not_or.2 hends) hends'.1,
      opposite_of_mem hcd hab (not_or.2 hends') hends.1⟩

/-! ## §5. Other numbers. -/

section Measuring

variable {F : Type u} [Coordinate F] [Sub F] [Mul F] [LE F] [LT F] [Min F] [Max F] [BEq F]
variable {holds : F → Int → Prop} {near : Vec → Prop} {p q r s : Vec} {x y : F} {m n : Int}

/-- Numbers that hold whole numbers are compared as those are, and near points are held exactly. -/
structure Measures (holds : F → Int → Prop) (near : Vec → Prop) : Prop where
  le_iff {x y : F} {m n : Int} : holds x m → holds y n → (x ≤ y ↔ m ≤ n)
  lt_iff {x y : F} {m n : Int} : holds x m → holds y n → (x < y ↔ m < n)
  beq_iff {x y : F} {m n : Int} : holds x m → holds y n → ((x == y) = true ↔ m = n)
  min {x y : F} {m n : Int} : holds x m → holds y n → holds (min x y) (min m n)
  max {x y : F} {m n : Int} : holds x m → holds y n → holds (max x y) (max m n)
  zero : holds (coord 0) 0
  point {p : Vec} : near p → holds (coord p.x) p.x ∧ holds (coord p.y) p.y
  turn {p q r : Vec} : near p → near q → near r →
    holds (turn (planePoint p) (planePoint q) (planePoint r))
      (turn (planePoint p) (planePoint q) (planePoint r))

theorem Measures.opposite_eq [DecidableLT F] (h : Measures holds near) (hx : holds x m)
    (hy : holds y n) : opposite x y = opposite m n := by
  unfold opposite
  simp only [h.lt_iff h.zero hx, h.lt_iff hy h.zero, h.lt_iff hx h.zero, h.lt_iff h.zero hy]
  rfl

theorem Measures.beq_zero_eq (h : Measures holds near) (hx : holds x m) :
    (x == coord 0) = (m == coord 0) := by
  rw [Bool.eq_iff_iff, h.beq_iff hx h.zero, beq_iff_eq]
  rfl

theorem Measures.inBox_eq [DecidableLE F] (h : Measures holds near) (hp : near p) (hq : near q)
    (hr : near r) :
    inBox (K := F) (planePoint p) (planePoint q) (planePoint r)
      = inBox (K := Int) (planePoint p) (planePoint q) (planePoint r) := by
  obtain ⟨hpx, hpy⟩ := h.point hp
  obtain ⟨hqx, hqy⟩ := h.point hq
  obtain ⟨hrx, hry⟩ := h.point hr
  unfold inBox planePoint
  simp only [h.le_iff (h.min hpx hqx) hrx, h.le_iff hrx (h.max hpx hqx),
    h.le_iff (h.min hpy hqy) hry, h.le_iff hry (h.max hpy hqy)]
  rfl

/-- Between near points the same segments meet. -/
theorem Measures.meet_eq [DecidableLE F] [DecidableLT F] (h : Measures holds near) (hp : near p)
    (hq : near q) (hr : near r) (hs : near s) :
    meet (K := F) (planePoint p) (planePoint q) (planePoint r) (planePoint s)
      = meet (K := Int) (planePoint p) (planePoint q) (planePoint r) (planePoint s) := by
  have hr' := h.turn hp hq hr
  have hs' := h.turn hp hq hs
  have hp' := h.turn hr hs hp
  have hq' := h.turn hr hs hq
  unfold meet
  simp only [h.opposite_eq hr' hs', h.opposite_eq hp' hq', h.beq_zero_eq hr', h.beq_zero_eq hs',
    h.beq_zero_eq hp', h.beq_zero_eq hq', h.inBox_eq hp hq hr, h.inBox_eq hp hq hs,
    h.inBox_eq hr hs hp, h.inBox_eq hr hs hq]

end Measuring

/-- All points are near when every whole coordinate is measured by itself. -/
theorem measures_exact : Measures (fun (x : K) n => x = n) fun _ => True where
  le_iff := by
    rintro x y m n rfl rfl
    exact Int.cast_le
  lt_iff := by
    rintro x y m n rfl rfl
    exact Int.cast_lt
  beq_iff := by
    rintro x y m n rfl rfl
    rw [beq_iff_eq, Int.cast_inj]
  min := by
    rintro x y m n rfl rfl
    exact (Int.cast_min).symm
  max := by
    rintro x y m n rfl rfl
    exact (Int.cast_max).symm
  zero := coord_eq 0
  point _ := ⟨coord_eq _, coord_eq _⟩
  turn := by
    intro p q r _ _ _
    unfold turn planePoint
    simp only [coord_eq]
    push_cast
    rfl

end Segment

end LogicBoard
