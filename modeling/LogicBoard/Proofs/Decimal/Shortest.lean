/-
  LogicBoard.Proofs.Decimal.Shortest
  ────────────────────────────────
  **HOW LARGE THE SHORTEST DECIMAL OF A DOUBLE IS.**

  The digits that stand for a double are tried one count after the other, and
  all that is ever taken is inside the interval of numbers that round to it.
  So the decimal number that is written for a double is not above the upper
  end of its interval.  For all finite doubles but the largest one this end
  is below the largest double, with room for later roundings.

  Main statements:
    • `moderate_shortest` — a bound on the decimal number,
    • `isLargest_bits` — the doubles for which it does not hold.
-/
import Mathlib.Algebra.Group.Nat.Defs
import LogicBoard.Decimal.Rounding

namespace LogicBoard.Binary64

variable {x : Binary64}

/-! ## §1. Finite doubles. -/

/-- The double is neither infinite nor no number at all. -/
def IsFinite (x : Binary64) : Prop := x.exponentBits < 2047

instance (x : Binary64) : Decidable x.IsFinite := inferInstanceAs (Decidable (_ < _))

/-- The magnitude is the largest of all doubles. -/
def IsLargest (x : Binary64) : Prop := x.exponentBits = 2046 ∧ x.fractionBits = 2 ^ 52 - 1

instance (x : Binary64) : Decidable x.IsLargest := inferInstanceAs (Decidable (_ ∧ _))

/-- The middle between the two largest doubles. -/
def limit : Nat := (2 ^ 55 - 6) * 2 ^ 969

theorem fractionBits_lt (x : Binary64) : x.fractionBits < 2 ^ 52 :=
  Nat.mod_lt _ (by decide)

/-- There are two largest doubles, one of each sign. -/
theorem isLargest_bits (h : x.IsLargest) :
    x = ⟨0x7FEFFFFFFFFFFFFF⟩ ∨ x = ⟨0xFFEFFFFFFFFFFFFF⟩ := by
  obtain ⟨hexponent, hfraction⟩ := h
  replace hexponent : x.bits.toNat / 2 ^ 52 % 2 ^ 11 = 2046 := hexponent
  replace hfraction : x.bits.toNat % 2 ^ 52 = 2 ^ 52 - 1 := hfraction
  have hbits : x.bits.toNat < 2 ^ 64 := x.bits.toNat_lt
  have hcases : x.bits.toNat = 0x7FEFFFFFFFFFFFFF ∨ x.bits.toNat = 0xFFEFFFFFFFFFFFFF := by omega
  obtain ⟨bits⟩ := x
  refine hcases.imp (fun h => ?_) (fun h => ?_)
  · exact congrArg Binary64.mk (UInt64.toNat_inj.1 h)
  · exact congrArg Binary64.mk (UInt64.toNat_inj.1 h)

/-! ## §2. Ratios that are not too large. -/

/-- The ratio is not above the whole number. -/
def Ratio.AtMost (r : Ratio) (n : Nat) : Prop := r.num ≤ n * r.den

theorem Ratio.den_ofPower (n : Nat) (e : Int) : 0 < (Ratio.ofPower n e).den := by
  unfold Ratio.ofPower
  split
  · exact Nat.one_pos
  · exact Nat.two_pow_pos _

theorem Ratio.atMost_ofPower {n m k b : Nat} {e : Int} (hn : n ≤ m) (he : e ≤ k)
    (hb : m * 2 ^ k ≤ b) : (Ratio.ofPower n e).AtMost b := by
  unfold Ratio.ofPower
  split
  · have hpower : 2 ^ e.toNat ≤ 2 ^ k := Nat.pow_le_pow_right (by decide) (by omega)
    show n * 2 ^ e.toNat ≤ b * 1
    rw [Nat.mul_one]
    exact Nat.le_trans (Nat.mul_le_mul hn hpower) hb
  · show n ≤ b * 2 ^ (-e).toNat
    calc n ≤ m := hn
      _ ≤ m * 2 ^ k := Nat.le_mul_of_pos_right m (Nat.two_pow_pos k)
      _ ≤ b := hb
      _ ≤ b * 2 ^ (-e).toNat := Nat.le_mul_of_pos_right b (Nat.two_pow_pos _)

/-- What is not above a ratio that is not too large is not too large either. -/
theorem Ratio.AtMost.of_order {r s : Ratio} {n : Nat} (h : s.AtMost n) (hs : 0 < s.den)
    (horder : r.order s ≠ .gt) : r.AtMost n := by
  have hle : r.num * s.den ≤ s.num * r.den := Nat.compare_ne_gt.1 horder
  refine Nat.le_of_mul_le_mul_right (?_ : r.num * s.den ≤ n * r.den * s.den) hs
  calc r.num * s.den ≤ s.num * r.den := hle
    _ ≤ n * s.den * r.den := Nat.mul_le_mul_right _ h
    _ = n * r.den * s.den := Nat.mul_right_comm n s.den r.den

theorem significand_lt (x : Binary64) : x.significand < 2 ^ 53 := by
  have hfraction := x.fractionBits_lt
  unfold significand
  split
  · omega
  · show 2 ^ 52 + x.fractionBits < 2 ^ 53
    omega

/-- The upper end of the interval of a finite double that is not the largest one. -/
theorem atMost_upperEnd (hx : x.IsFinite) (hlargest : ¬ x.IsLargest) :
    x.upperEnd.AtMost limit := by
  have hsignificand := x.significand_lt
  by_cases hexponent : x.exponentBits = 2046
  · -- With the largest exponent, the fraction has room for one unit more.
    have hfraction : x.fractionBits ≠ 2 ^ 52 - 1 := fun h => hlargest ⟨hexponent, h⟩
    have hroom : x.significand ≤ 2 ^ 53 - 2 := by
      have hbits := x.fractionBits_lt
      unfold significand
      rw [if_neg (by omega)]
      show 2 ^ 52 + x.fractionBits ≤ 2 ^ 53 - 2
      omega
    have hpower : x.power - 2 ≤ (969 : Nat) := by
      unfold power
      split <;> omega
    exact Ratio.atMost_ofPower (by omega) hpower (Nat.le_refl limit)
  · have hpower : x.power - 2 ≤ (968 : Nat) := by
      unfold IsFinite at hx
      unfold power
      split <;> omega
    have hbelow : (2 ^ 55 - 2) * 2 ^ 968 ≤ limit := by decide +kernel
    exact Ratio.atMost_ofPower (by omega) hpower hbelow

theorem atMost_magnitude (h : x.upperEnd.AtMost limit) : x.magnitude.AtMost limit := by
  refine h.of_order (Ratio.den_ofPower _ _) (Nat.compare_ne_gt.2 ?_)
  unfold magnitude upperEnd Ratio.ofPower
  split
  · exact Nat.mul_le_mul_right _ (Nat.mul_le_mul_right _ (Nat.le_add_right _ 2))
  · exact Nat.mul_le_mul_right _ (Nat.le_add_right _ 2)

/-! ## §3. Digits that are tried. -/

/-- The decimal number is not too large, and zero is only written without a positive scale. -/
structure Moderate (d : Digits) : Prop where
  atMost : d.ratio.AtMost limit
  scale : d.digits = 0 → d.scale ≤ 0

theorem lowerEnd_pos (hx : x.significand ≠ 0) : 0 < x.lowerEnd.num := by
  have hbits : ∀ n : Nat, 0 < n → ∀ e, 0 < (Ratio.ofPower n e).num := by
    intro n hn e
    unfold Ratio.ofPower
    split
    · exact Nat.mul_pos hn (Nat.two_pow_pos _)
    · exact hn
  refine hbits _ ?_ _
  split <;> omega

theorem Digits.den_ratio (d : Digits) : 0 < d.ratio.den := by
  unfold ratio
  split
  · exact Nat.one_pos
  · exact Nat.pow_pos (by decide)

/-- Digits that are admitted are moderate. -/
theorem moderate_of_admits (hx : x.significand ≠ 0) (h : x.upperEnd.AtMost limit) {d : Digits}
    (hd : x.admits d = true) : Moderate d := by
  have horder : x.lowerEnd.order d.ratio ≠ .gt ∧ d.ratio.order x.upperEnd ≠ .gt := by
    unfold admits at hd
    dsimp only at hd
    split at hd
    · simpa using hd
    · obtain ⟨hlow, hhigh⟩ := Bool.and_eq_true_iff.1 hd
      rw [beq_iff_eq.1 hlow, beq_iff_eq.1 hhigh]
      exact ⟨by decide, by decide⟩
  refine ⟨h.of_order (Ratio.den_ofPower _ _) horder.2, fun hzero => ?_⟩
  -- Zero is below the lower end.
  have hle : x.lowerEnd.num * d.ratio.den ≤ d.ratio.num * x.lowerEnd.den :=
    Nat.compare_ne_gt.1 horder.1
  have hnum : d.ratio.num = 0 := by
    unfold Digits.ratio
    split
    · show d.digits * _ = 0
      rw [hzero, Nat.zero_mul]
    · exact hzero
  have hpos : 0 < x.lowerEnd.num * d.ratio.den := Nat.mul_pos (lowerEnd_pos hx) d.den_ratio
  rw [hnum, Nat.zero_mul] at hle
  omega

theorem nearer_cases (r : Ratio) (below : Digits) :
    nearer r below = below ∨ nearer r below = ⟨below.digits + 1, below.scale⟩ := by
  unfold nearer
  dsimp only
  split
  · exact Or.inl rfl
  · exact Or.inr rfl
  · split
    · exact Or.inl rfl
    · exact Or.inr rfl

theorem le_of_digitCount {n : Nat} (hn : 0 < n) : 10 ^ (digitCount n - 1) ≤ n := by
  by_cases hone : digitCount n = 1
  · rw [hone]
    exact hn
  · have hpos : 0 < digitCount n := Nat.length_toDigits_pos
    refine Nat.le_of_not_lt fun hsmall => ?_
    have hshort : digitCount n ≤ digitCount n - 1 :=
      (Nat.length_toDigits_le_iff (by decide) (by omega)).2 hsmall
    omega

/-- A ratio is not rounded down to zero at a positive scale that is not above its own exponent. -/
theorem digits_roundDown {r : Ratio} (hr : 0 < r.den) {scale : Int} (hscale : 0 < scale)
    (hexponent : scale ≤ decimalExponent r) : (roundDown r scale).digits ≠ 0 := by
  have hlarge : r.den ≤ r.num := by
    refine Nat.le_of_not_lt fun hsmall => ?_
    unfold decimalExponent at hexponent
    rw [if_neg (Nat.not_le.2 hsmall)] at hexponent
    omega
  have hwhole : 0 < r.num / r.den := Nat.div_pos hlarge hr
  have hcount : scale.toNat ≤ digitCount (r.num / r.den) - 1 := by
    unfold decimalExponent at hexponent
    rw [if_pos hlarge] at hexponent
    omega
  have hpower : 10 ^ scale.toNat ≤ r.num / r.den :=
    Nat.le_trans (Nat.pow_le_pow_right (by decide) hcount) (le_of_digitCount hwhole)
  unfold roundDown
  rw [if_pos (by omega)]
  show r.num / (r.den * 10 ^ scale.toNat) ≠ 0
  rw [← Nat.div_div_eq_div_mul]
  exact Nat.ne_of_gt (Nat.div_pos hpower (Nat.pow_pos (by decide)))

theorem atMost_roundDown {r : Ratio} {n : Nat} (h : r.AtMost n) (scale : Int) :
    (roundDown r scale).ratio.AtMost n := by
  unfold roundDown
  split
  · rename_i hscale
    unfold Digits.ratio
    rw [if_pos hscale]
    show r.num / (r.den * 10 ^ scale.toNat) * 10 ^ scale.toNat ≤ n * 1
    calc r.num / (r.den * 10 ^ scale.toNat) * 10 ^ scale.toNat
        ≤ r.num / r.den := by
          rw [← Nat.div_div_eq_div_mul]
          exact Nat.div_mul_le_self _ _
      _ ≤ n := Nat.div_le_of_le_mul (by rw [Nat.mul_comm]; exact h)
      _ = n * 1 := (Nat.mul_one n).symm
  · rename_i hscale
    unfold Digits.ratio
    rw [if_neg hscale]
    show r.num * 10 ^ (-scale).toNat / r.den ≤ n * 10 ^ (-scale).toNat
    refine Nat.div_le_of_le_mul ?_
    calc r.num * 10 ^ (-scale).toNat ≤ n * r.den * 10 ^ (-scale).toNat :=
          Nat.mul_le_mul_right _ h
      _ = r.den * (n * 10 ^ (-scale).toNat) := by
          rw [Nat.mul_comm n, Nat.mul_assoc]

/-! ## §4. The shortest digits. -/

/-- Whatever number of digits the search ends with, they are moderate. -/
theorem moderate_shortestFrom (hx : x.significand ≠ 0) (h : x.upperEnd.AtMost limit)
    (count fuel : Nat) : Moderate (x.shortestFrom count fuel) := by
  induction fuel generalizing count with
  | zero =>
    refine ⟨atMost_roundDown (atMost_magnitude h) _, fun hzero => ?_⟩
    refine Int.not_lt.1 fun hscale => ?_
    have hscale' : 0 < decimalExponent x.magnitude - count := by
      have hsame : (x.shortestFrom count 0).scale = decimalExponent x.magnitude - count := by
        unfold shortestFrom roundDown
        split <;> rfl
      omega
    exact digits_roundDown (r := x.magnitude) (Ratio.den_ofPower _ _) hscale' (by omega) hzero
  | succ fuel ih =>
    unfold shortestFrom
    dsimp only
    split
    · -- Both neighbours are admitted, and the nearer one is one of them.
      rename_i hbelow habove
      rcases nearer_cases x.magnitude
        (roundDown x.magnitude (decimalExponent x.magnitude - count)) with heq | heq
      · rw [heq]
        exact moderate_of_admits hx h hbelow
      · rw [heq]
        exact moderate_of_admits hx h habove
    · rename_i hbelow _
      exact moderate_of_admits hx h hbelow
    · rename_i _ habove
      exact moderate_of_admits hx h habove
    · exact ih (count + 1)

/-- Dropping one zero changes neither the number nor whether it is zero. -/
theorem Moderate.dropped {d : Digits} (h : Moderate d) (hne : d.digits ≠ 0)
    (hzero : d.digits % 10 = 0) : Moderate ⟨d.digits / 10, d.scale + 1⟩ := by
  have htens : d.digits = d.digits / 10 * 10 := by omega
  have hmost := h.atMost
  refine ⟨?_, fun hnone => absurd hnone (by show d.digits / 10 ≠ 0; omega)⟩
  unfold Ratio.AtMost Digits.ratio at hmost ⊢
  by_cases hscale : 0 ≤ d.scale
  · rw [if_pos hscale] at hmost
    rw [if_pos (by show 0 ≤ d.scale + 1; omega)]
    have hnext : (d.scale + 1).toNat = d.scale.toNat + 1 := by omega
    show d.digits / 10 * 10 ^ (d.scale + 1).toNat ≤ limit * 1
    rw [hnext, Nat.pow_succ', ← Nat.mul_assoc, ← htens]
    exact hmost
  · rw [if_neg hscale] at hmost
    replace hmost : d.digits ≤ limit * 10 ^ (-d.scale).toNat := hmost
    by_cases hlast : d.scale = -1
    · -- The zero was the only digit behind the point.
      rw [if_pos (by show 0 ≤ d.scale + 1; omega)]
      have hnext : (d.scale + 1).toNat = 0 := by omega
      have hone : (-d.scale).toNat = 1 := by omega
      have hten : 10 ^ (-d.scale).toNat = 10 := by rw [hone, Nat.pow_one]
      rw [hten] at hmost
      calc d.digits / 10 * 10 ^ (d.scale + 1).toNat
          = d.digits / 10 := by rw [hnext, Nat.pow_zero, Nat.mul_one]
        _ ≤ limit * 1 := by omega
    · rw [if_neg (by show ¬ 0 ≤ d.scale + 1; omega)]
      have hnext : (-d.scale).toNat = (-(d.scale + 1)).toNat + 1 := by omega
      show d.digits / 10 ≤ limit * 10 ^ (-(d.scale + 1)).toNat
      rw [hnext, Nat.pow_succ, ← Nat.mul_assoc] at hmost
      omega

theorem Moderate.trimmed {d : Digits} (h : Moderate d) (fuel : Nat) :
    Moderate (d.trimmed fuel) := by
  induction fuel generalizing d with
  | zero => exact h
  | succ fuel ih =>
    unfold Digits.trimmed
    split
    · rename_i hdrop
      simp only [Bool.and_eq_true, decide_eq_true_eq] at hdrop
      obtain ⟨hne, hzero⟩ := hdrop
      exact ih (h.dropped hne hzero)
    · exact h

/-- The shortest decimal number of a finite double, unless it is the largest one. -/
theorem moderate_shortest (hx : x.IsFinite) (hlargest : ¬ x.IsLargest) : Moderate x.shortest := by
  unfold shortest
  split
  · exact ⟨Nat.zero_le _, fun _ => Int.le_refl 0⟩
  · rename_i hsignificand
    exact (moderate_shortestFrom hsignificand (atMost_upperEnd hx hlargest) 0 17).trimmed 17

end LogicBoard.Binary64
