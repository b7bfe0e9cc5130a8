/-
  LogicBoard.Proofs.Decimal.Rounding
  ────────────────────────────────
  **ROUNDING KEEPS THE ORDER.**

  A larger ratio is not rounded to a smaller double.  Within one step of the
  leading digits this is so because the nearest whole numbers are in order;
  from one step to a longer one, because `2^52` long steps are `2^53` short
  ones.

  Main statements: `round_mono`, `whole_mono`, `product_mono`.
-/
import Mathlib.Algebra.Group.Nat.Defs
import LogicBoard.Decimal.Rounding

namespace LogicBoard.Binary64

variable {n m d c : Nat}

/-! ## §1. The nearest whole number. -/

theorem div_le_nearest (n d : Nat) : n / d ≤ nearest n d := by
  unfold nearest
  dsimp only
  split <;> omega

theorem nearest_le_div (n d : Nat) : nearest n d ≤ n / d + 1 := by
  unfold nearest
  dsimp only
  split <;> omega

theorem nearest_mono (h : n ≤ m) : nearest n d ≤ nearest m d := by
  have hdiv : n / d ≤ m / d := Nat.div_le_div_right h
  by_cases hlt : n / d < m / d
  · have hlow := nearest_le_div n d
    have hhigh := div_le_nearest m d
    omega
  · -- With the same whole part, the larger rest is rounded up if the smaller one is.
    have heq : n / d = m / d := by omega
    have hrest : n % d ≤ m % d := by
      have hn := Nat.div_add_mod n d
      have hm := Nat.div_add_mod m d
      rw [heq] at hn
      omega
    unfold nearest
    dsimp only
    rw [heq]
    simp only [Bool.or_eq_true, Bool.and_eq_true, decide_eq_true_eq]
    split <;> split <;> omega

theorem nearest_mul (hd : 0 < d) : nearest (c * d) d = c := by
  unfold nearest
  dsimp only
  rw [Nat.mul_mod_left, Nat.mul_div_cancel c hd, if_pos (by simp [hd])]

/-! ## §2. Leading digits. -/

/-- Rounding keeps 53 binary digits at most. -/
theorem nearest_le_step (hd : 0 < d) :
    nearest n (d * 2 ^ ((n / d).log2 - 52)) ≤ 2 ^ 53 := by
  have hstep : 0 < d * 2 ^ ((n / d).log2 - 52) := Nat.mul_pos hd (Nat.two_pow_pos _)
  have hlarge : n / d < 2 ^ (53 + ((n / d).log2 - 52)) :=
    Nat.lt_of_lt_of_le Nat.lt_log2_self (Nat.pow_le_pow_right (by decide) (by omega))
  have hbelow : n ≤ 2 ^ 53 * (d * 2 ^ ((n / d).log2 - 52)) := by
    rw [Nat.div_lt_iff_lt_mul hd, Nat.pow_add] at hlarge
    refine Nat.le_trans (Nat.le_of_lt hlarge) (Nat.le_of_eq ?_)
    rw [Nat.mul_assoc, Nat.mul_comm d]
  exact Nat.le_trans (nearest_mono hbelow) (Nat.le_of_eq (nearest_mul hstep))

/-- A step is only longer than a unit if there are 53 binary digits above it. -/
theorem step_le_nearest (hd : 0 < d) (hlong : 0 < (n / d).log2 - 52) :
    2 ^ 52 ≤ nearest n (d * 2 ^ ((n / d).log2 - 52)) := by
  have hstep : 0 < d * 2 ^ ((n / d).log2 - 52) := Nat.mul_pos hd (Nat.two_pow_pos _)
  have hne : n / d ≠ 0 := by
    intro hzero
    rw [hzero] at hlong
    exact absurd hlong (by decide)
  have hsmall : 2 ^ (52 + ((n / d).log2 - 52)) ≤ n / d :=
    Nat.le_trans (Nat.pow_le_pow_right (by decide) (by omega)) (Nat.log2_self_le hne)
  have habove : 2 ^ 52 * (d * 2 ^ ((n / d).log2 - 52)) ≤ n := by
    rw [Nat.le_div_iff_mul_le hd, Nat.pow_add] at hsmall
    refine Nat.le_trans (Nat.le_of_eq ?_) hsmall
    rw [Nat.mul_assoc, Nat.mul_comm d]
  exact Nat.le_trans (Nat.le_of_eq (nearest_mul hstep).symm) (nearest_mono habove)

/-- A larger ratio is not rounded to a smaller double. -/
theorem round_mono (hd : 0 < d) (h : n ≤ m) : round n d ≤ round m d := by
  have hlog : (n / d).log2 ≤ (m / d).log2 := by
    by_cases hzero : n / d = 0
    · rw [hzero]
      exact Nat.zero_le _
    · have hdiv : n / d ≤ m / d := Nat.div_le_div_right h
      have hzero' : m / d ≠ 0 := fun hnone => hzero (Nat.le_zero.1 (hnone ▸ hdiv))
      exact (Nat.le_log2 hzero').2 (Nat.le_trans (Nat.log2_self_le hzero) hdiv)
  show nearest n (d * 2 ^ ((n / d).log2 - 52)) * 2 ^ ((n / d).log2 - 52)
    ≤ nearest m (d * 2 ^ ((m / d).log2 - 52)) * 2 ^ ((m / d).log2 - 52)
  by_cases hsame : (n / d).log2 - 52 = (m / d).log2 - 52
  · rw [hsame]
    exact Nat.mul_le_mul_right _ (nearest_mono h)
  · have hlonger : (n / d).log2 - 52 + 1 ≤ (m / d).log2 - 52 := by omega
    calc nearest n (d * 2 ^ ((n / d).log2 - 52)) * 2 ^ ((n / d).log2 - 52)
        ≤ 2 ^ 53 * 2 ^ ((n / d).log2 - 52) := Nat.mul_le_mul_right _ (nearest_le_step hd)
      _ = 2 ^ 52 * 2 ^ ((n / d).log2 - 52 + 1) := by rw [Nat.pow_succ]; omega
      _ ≤ 2 ^ 52 * 2 ^ ((m / d).log2 - 52) :=
          Nat.mul_le_mul_left _ (Nat.pow_le_pow_right (by decide) hlonger)
      _ ≤ nearest m (d * 2 ^ ((m / d).log2 - 52)) * 2 ^ ((m / d).log2 - 52) :=
          Nat.mul_le_mul_right _ (step_le_nearest hd (by omega))

/-! ## §3. Arithmetic. -/

theorem unitsOfOne_pos : 0 < unitsOfOne := by decide +kernel

theorem whole_mono (h : n ≤ m) : whole n ≤ whole m :=
  round_mono Nat.one_pos (Nat.mul_le_mul_right _ h)

theorem product_mono {u v w x : Nat} (h : u ≤ v) (h' : w ≤ x) : product u w ≤ product v x :=
  round_mono unitsOfOne_pos (Nat.mul_le_mul h h')

end LogicBoard.Binary64
