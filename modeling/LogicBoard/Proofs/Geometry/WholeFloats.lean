/-
  LogicBoard.Proofs.Geometry.WholeFloats
  ────────────────────────────────
  **WHOLE NUMBERS IN FLOATING POINT.**

  A float has 53 bits for its mantissa.  A whole number of at most 2^53 needs
  no more, so the float nearest to it is the number itself.  Differences and
  products that stay below this bound are therefore exact, and floats that
  hold whole numbers compare as these do.

  A whole number other than zero is held with all 53 bits in use: the mantissa
  begins with a one, and the exponent says how many of its last bits stand
  behind the point.

  Main statements:
    • `holds_normalize` — a number that fits is not changed by rounding,
    • `Holds.unpack_pack` — it is read back as it was written,
    • `IsWhole.sub`, `IsWhole.mul` — differences and products are exact,
    • `IsWhole.lt_iff`, `IsWhole.le_iff`, `IsWhole.beq_iff` — comparisons are.
-/
import LogicBoard.Geometry.Rect
import Mathlib

namespace LogicBoard.WholeFloat

open Float.Model Float.Model.UnpackedFloat

/-! ## §1. Shifting and rounding. -/

theorem log2_mul_pow {q : Nat} (hq : 0 < q) (k : Nat) : (q * 2 ^ k).log2 = q.log2 + k := by
  have hpos : q * 2 ^ k ≠ 0 := (Nat.mul_pos hq (Nat.two_pow_pos k)).ne'
  rw [Nat.log2_eq_iff hpos]
  constructor
  · rw [pow_add]
    exact Nat.mul_le_mul_right _ (Nat.log2_self_le hq.ne')
  · rw [show q.log2 + k + 1 = q.log2 + 1 + k by omega, pow_add]
    exact Nat.mul_lt_mul_of_pos_right Nat.lt_log2_self (Nat.two_pow_pos k)

/-- Bits that are zero are shifted out without a trace. -/
theorem shiftRight_exact (q k : Nat) :
    (⟨q * 2 ^ k, false, false⟩ : ExtendedMantissa) >>> k = ⟨q, false, false⟩ := by
  induction k generalizing q with
  | zero => simp [HShiftRight.hShiftRight, Nat.repeat]
  | succ k ih =>
    have hshift : (⟨q * 2 ^ (k + 1), false, false⟩ : ExtendedMantissa) >>> (k + 1)
        = ((⟨q * 2 * 2 ^ k, false, false⟩ : ExtendedMantissa) >>> k).shiftRightOne := by
      rw [pow_succ', ← mul_assoc]
      rfl
    rw [hshift, ih, ExtendedMantissa.shiftRightOne]
    simp

theorem targetExponent_eq {e : Int} (he : -1021 ≤ e) :
    Format.binary64.targetExponent e = e - 53 := by
  have hmin : Format.binary64.minExponent = -1074 := by decide
  unfold Format.targetExponent
  rw [hmin]
  show max (e - 53) (-1074) = e - 53
  omega

theorem shiftToTargetExponent_exact {q k : Nat} {e : Int} (hq : q.log2 = 52) (he : -1074 ≤ e + k) :
    shiftToTargetExponent Format.binary64 (q * 2 ^ k) e .exact = (⟨q, false, false⟩, e + k) := by
  have hpos : 0 < q := Nat.pos_of_ne_zero (by rintro rfl; simp at hq)
  unfold shiftToTargetExponent totalExponent
  rw [log2_mul_pow hpos, hq, targetExponent_eq (by omega)]
  unfold shiftToExponent
  have hk : (((52 + k : Nat) : Int) + 1 + e - 53 - e).toNat = k := by omega
  simp only [hk]
  rw [show ExtendedMantissa.ofMantissaAndAccuracy (q * 2 ^ k) .exact = ⟨q * 2 ^ k, false, false⟩
    from rfl, shiftRight_exact]

/-- A number that fits is not changed by rounding. -/
theorem roundWithAccuracy_exact {q k : Nat} {e : Int} (s : Sign) (hq : q.log2 = 52)
    (he : -1074 ≤ e + k) (hpos : 0 < q) :
    roundWithAccuracy Format.binary64 s (q * 2 ^ k) e .exact = .finite s q (e + k) hpos := by
  unfold roundWithAccuracy
  rw [shiftToTargetExponent_exact hq he]
  have hsame := shiftToTargetExponent_exact (q := q) (k := 0) (e := e + k) hq (by omega)
  rw [pow_zero, mul_one] at hsame
  simp only [show ExtendedMantissa.roundedMantissa ⟨q, false, false⟩ = q from rfl, hsame]
  rw [dif_neg hpos.ne']
  simp

/-- The bits of a number are as many as the bits of its mantissa and those behind it. -/
theorem log2_add_of_mul_pow_eq {m q j l : Nat} (hm : 0 < m) (hq : 0 < q)
    (hvalue : m * 2 ^ j = q * 2 ^ l) : m.log2 + j = q.log2 + l := by
  rw [← log2_mul_pow hm, hvalue, log2_mul_pow hq]

theorem round_exact {q m j l : Nat} (s : Sign) (hq : q.log2 = 52) (hvalue : m * 2 ^ j = q * 2 ^ l)
    (hpos : 0 < q) : UnpackedFloat.round Format.binary64 s m (j - 52) = .finite s q (l - 52) hpos := by
  have hm : 0 < m := Nat.pos_of_ne_zero <| by
    rintro rfl
    rw [zero_mul] at hvalue
    exact (Nat.mul_pos hpos (Nat.two_pow_pos l)).ne hvalue
  have hlog := log2_add_of_mul_pow_eq hm hpos hvalue
  unfold UnpackedFloat.round totalExponent decreaseExponent
  rw [targetExponent_eq (by omega)]
  rcases Nat.le_total l j with hlj | hjl
  · -- The mantissa has too few bits, so zeros are put behind it.
    have hshift : (((j : Int) - 52) - ((m.log2 : Int) + 1 + (j - 52) - 53)).toNat = j - l := by
      omega
    have hmantissa : m * 2 ^ (j - l) = q := by
      refine Nat.eq_of_mul_eq_mul_right (Nat.two_pow_pos l) ?_
      rw [mul_assoc, ← pow_add, Nat.sub_add_cancel hlj, hvalue]
    have hround := roundWithAccuracy_exact (q := q) (k := 0) (e := l - 52) s hq (by omega) hpos
    rw [pow_zero, mul_one] at hround
    simp only [hshift, Nat.shiftLeft_eq, hmantissa]
    rw [show (j : Int) - 52 - ((j - l : Nat) : Int) = l - 52 by omega, hround]
    simp
  · -- It has too many, and those that are dropped are zeros.
    have hshift : (((j : Int) - 52) - ((m.log2 : Int) + 1 + (j - 52) - 53)).toNat = 0 := by
      omega
    have hmantissa : m = q * 2 ^ (l - j) := by
      refine Nat.eq_of_mul_eq_mul_right (Nat.two_pow_pos j) ?_
      rw [hvalue, mul_assoc, ← pow_add, Nat.sub_add_cancel hjl]
    have hround := roundWithAccuracy_exact (q := q) (k := l - j) (e := j - 52) s hq (by omega) hpos
    simp only [hshift, Nat.shiftLeft_zero, Nat.cast_zero, sub_zero]
    rw [hmantissa, hround]
    congr 1
    omega

/-! ## §2. Whole numbers. -/

/-- The unpacked float stands for a whole number, with as many bits as there are. -/
inductive Holds : UnpackedFloat → Int → Prop
  | zero (s : Sign) : Holds (.zero s) 0
  | finite (s : Sign) {m j n : Nat} (hpos : 0 < m) (bits : m.log2 = 52)
      (value : m * 2 ^ j = n * 2 ^ 52) (fits : n ≤ 2 ^ 53) :
      Holds (.finite s m (j - 52) hpos) (s.apply n)

/-- Every number that fits has a mantissa. -/
theorem exists_mantissa {n : Nat} (hpos : 0 < n) (hfits : n ≤ 2 ^ 53) :
    ∃ q j, 0 < q ∧ q.log2 = 52 ∧ q * 2 ^ j = n * 2 ^ 52 := by
  rcases Nat.lt_or_eq_of_le hfits with hlt | rfl
  · have hlog : n.log2 < 53 := (Nat.log2_lt hpos.ne').2 hlt
    refine ⟨n * 2 ^ (52 - n.log2), n.log2, Nat.mul_pos hpos (Nat.two_pow_pos _), ?_, ?_⟩
    · rw [log2_mul_pow hpos]
      omega
    · rw [mul_assoc, ← pow_add, Nat.sub_add_cancel (Nat.le_of_lt_succ hlog)]
  · exact ⟨2 ^ 52, 53, by decide, by decide, by decide⟩

theorem holds_round {m j n : Nat} (s : Sign) (hpos : 0 < n) (hvalue : m * 2 ^ j = n * 2 ^ 52)
    (hfits : n ≤ 2 ^ 53) :
    Holds (UnpackedFloat.round Format.binary64 s m (j - 52)) (s.apply n) := by
  obtain ⟨q, l, hq, hbits, hql⟩ := exists_mantissa hpos hfits
  rw [round_exact s hbits (hvalue.trans hql.symm) hq]
  exact .finite s hq hbits hql hfits

/-- A number that fits is held exactly. -/
theorem holds_normalize {m n : Int} {j : Nat} (s : Sign) (hvalue : m * 2 ^ j = n * 2 ^ 52)
    (hfits : n.natAbs ≤ 2 ^ 53) :
    Holds (UnpackedFloat.normalize Format.binary64 m (j - 52) s) n := by
  have hpow : (0 : Int) < 2 ^ j := by positivity
  have hpow' : (0 : Int) < 2 ^ 52 := by norm_num
  unfold UnpackedFloat.normalize
  rcases lt_trichotomy m 0 with hm | rfl | hm
  · have hn : n < 0 := by nlinarith
    have hround := holds_round (m := (-m).toNat) (n := (-n).toNat) (j := j) .negative (by omega)
      (by zify; rw [Int.toNat_of_nonneg (by omega), Int.toNat_of_nonneg (by omega)]; linarith)
      (by omega)
    rw [Int.compare_eq_lt.2 hm]
    rw [show n = Sign.negative.apply ((-n).toNat : Int) by simp only [Sign.apply]; omega]
    exact hround
  · have hn : n = 0 := by
      rw [zero_mul] at hvalue
      exact (mul_eq_zero.1 hvalue.symm).resolve_right hpow'.ne'
    subst hn
    exact .zero s
  · have hn : 0 < n := by nlinarith
    have hround := holds_round (m := m.toNat) (n := n.toNat) (j := j) .positive (by omega)
      (by zify; rw [Int.toNat_of_nonneg (by omega), Int.toNat_of_nonneg (by omega)]; linarith)
      (by omega)
    rw [Int.compare_eq_gt.2 hm]
    rw [show n = Sign.positive.apply (n.toNat : Int) by simp only [Sign.apply]; omega]
    exact hround

/-! ## §3. Packing. -/

theorem finite_congr {s : Sign} {m n : Nat} {e f : Int} {h : 0 < m} {g : 0 < n} (hm : m = n)
    (he : e = f) : UnpackedFloat.finite s m e h = .finite s n f g := by
  subst hm he
  rfl

/-- The first of 53 bits is not written down, and it is read back. -/
theorem toNat_append_one {m : Nat} (hpos : 0 < m) (hbits : m.log2 = 52) :
    (1#1 ++ BitVec.ofNat 52 m).toNat = m := by
  obtain ⟨hlow, hhigh⟩ := (Nat.log2_eq_iff hpos.ne').1 hbits
  rw [BitVec.toNat_append, BitVec.toNat_ofNat, BitVec.toNat_ofNat,
    ← Nat.shiftLeft_add_eq_or_of_lt (Nat.mod_lt _ (Nat.two_pow_pos 52)), Nat.shiftLeft_eq]
  omega

theorem pos_of_value {m j n : Nat} (hpos : 0 < m) (hvalue : m * 2 ^ j = n * 2 ^ 52) : 0 < n := by
  refine Nat.pos_of_ne_zero ?_
  rintro rfl
  rw [zero_mul] at hvalue
  exact (Nat.mul_pos hpos (Nat.two_pow_pos j)).ne' hvalue

theorem place_le {m j n : Nat} (hpos : 0 < m) (hbits : m.log2 = 52)
    (hvalue : m * 2 ^ j = n * 2 ^ 52) (hfits : n ≤ 2 ^ 53) : j ≤ 53 := by
  have hn : 0 < n := pos_of_value hpos hvalue
  have hlog := log2_add_of_mul_pow_eq hpos hn hvalue
  have hle : n.log2 < 54 := (Nat.log2_lt hn.ne').2 (by omega)
  omega

/-- Packing loses nothing. -/
theorem unpack_pack_finite {m j : Nat} (s : Sign) (hpos : 0 < m) (hbits : m.log2 = 52)
    (hj : j ≤ 53) :
    UnpackedFloat.unpack Format.binary64 (UnpackedFloat.pack Format.binary64
      (.finite s m (j - 52) hpos)) = .finite s m (j - 52) hpos := by
  have hbias : Format.binary64.exponentBias = 1023 := by decide
  have hexponent : ((j : Int) - 52 + (1023 : Nat) + (52 : Nat)).toNat = j + 1023 := by omega
  have hplain : (BitVec.ofNat 11 (j + 1023)).toNat = j + 1023 := by
    rw [BitVec.toNat_ofNat, Nat.mod_eq_of_lt (by omega)]
  -- The exponent is neither of those that are set apart.
  have hlast : BitVec.ofNat 11 (j + 1023) ≠ -1#11 := by
    intro h
    have := congrArg BitVec.toNat h
    rw [hplain] at this
    simp at this
    omega
  have hfirst : BitVec.ofNat 11 (j + 1023) ≠ 0#11 := by
    intro h
    have := congrArg BitVec.toNat h
    rw [hplain] at this
    simp at this
  have hpack : UnpackedFloat.pack Format.binary64 (.finite s m (j - 52) hpos)
      = packComponents Format.binary64 s (BitVec.ofNat 11 (j + 1023)) (BitVec.ofNat 52 m) := by
    unfold UnpackedFloat.pack
    simp only [hbias, hbits]
    rw [hexponent, if_neg (by omega), if_pos (show 52 + 1 = Format.binary64.mantissaBits by decide)]
  rw [hpack]
  unfold UnpackedFloat.unpack
  simp only [unpackMantissa_packComponents, unpackExponent_packComponents,
    unpackSign_packComponents, Sign.ofBitVec_toBitVec, hbias]
  rw [if_neg hlast, if_neg hfirst]
  refine finite_congr (toNat_append_one hpos hbits) ?_
  rw [hplain]
  show ((j + 1023 : Nat) : Int) - ((1023 : Nat) + (52 : Nat)) = j - 52
  omega

theorem Holds.unpack_pack {u : UnpackedFloat} {n : Int} (h : Holds u n) :
    UnpackedFloat.unpack Format.binary64 (UnpackedFloat.pack Format.binary64 u) = u := by
  cases h with
  | zero s => exact unpack_packedZero
  | finite s hpos bits value fits =>
    exact unpack_pack_finite s hpos bits (place_le hpos bits value fits)

/-! ## §4. Differences and products. -/

variable {u v : UnpackedFloat} {a b : Int}

theorem apply_neg (s : Sign) (n : Int) : (-s).apply n = -s.apply n := by
  cases s
  · exact (neg_neg n).symm
  · rfl

theorem apply_mul (s t : Sign) (m n : Nat) :
    (s * t).apply (m * n : Nat) = s.apply m * t.apply n := by
  rw [Nat.cast_mul]
  cases s <;> cases t
  · exact (neg_mul_neg _ _).symm
  · exact (neg_mul _ _).symm
  · exact (mul_neg _ _).symm
  · rfl

theorem natAbs_apply (s : Sign) (n : Nat) : (s.apply n).natAbs = n := by
  cases s
  · exact Int.natAbs_neg n
  · rfl

theorem apply_mul_pow (s : Sign) (m k : Nat) :
    s.apply (m * 2 ^ k : Nat) = s.apply m * 2 ^ k := by
  cases s
  · simp [Sign.apply]
  · simp [Sign.apply]

theorem Holds.sub (hu : Holds u a) (hv : Holds v b) (hfits : (a - b).natAbs ≤ 2 ^ 53) :
    Holds (UnpackedFloat.sub Format.binary64 u v) (a - b) := by
  cases hu with
  | zero s =>
    cases hv with
    | zero t =>
      unfold UnpackedFloat.sub
      dsimp only
      split <;> exact .zero _
    | finite t hpos bits value fits =>
      rw [zero_sub, ← apply_neg]
      exact .finite (-t) hpos bits value fits
  | finite s hpos bits value fits =>
    cases hv with
    | zero t =>
      rw [sub_zero]
      exact .finite s hpos bits value fits
    | finite t hpos' bits' value' fits' =>
      rename_i m j n m' j' n'
      -- Both mantissas are written for the smaller exponent.
      have hmin : min ((j : Int) - 52) (j' - 52) = (min j j' : Nat) - 52 := by omega
      have hshift : ∀ i : Nat, min j j' ≤ i →
          ((i : Int) - 52 - ((min j j' : Nat) - 52)).toNat = i - min j j' := by
        intro i hi
        omega
      have haligned : ∀ (r : Sign) {m i n : Nat}, min j j' ≤ i → m * 2 ^ i = n * 2 ^ 52 →
          r.apply (m * 2 ^ (i - min j j') : Nat) * 2 ^ min j j' = r.apply n * 2 ^ 52 := by
        intro r m i n hi hvalue
        rw [← apply_mul_pow, ← apply_mul_pow, mul_assoc, ← pow_add,
          Nat.sub_add_cancel hi, hvalue]
      unfold UnpackedFloat.sub decreaseExponent
      simp only [hmin, hshift j (Nat.min_le_left j j'), hshift j' (Nat.min_le_right j j'),
        Nat.shiftLeft_eq]
      refine holds_normalize .positive ?_ hfits
      rw [sub_mul, sub_mul, haligned s (Nat.min_le_left j j') value,
        haligned t (Nat.min_le_right j j') value']

theorem Holds.mul (hu : Holds u a) (hv : Holds v b) (hfits : (a * b).natAbs ≤ 2 ^ 53) :
    Holds (UnpackedFloat.mul Format.binary64 u v) (a * b) := by
  cases hu with
  | zero s =>
    rw [zero_mul]
    cases hv <;> exact .zero _
  | finite s hpos bits value fits =>
    cases hv with
    | zero t =>
      rw [mul_zero]
      exact .zero _
    | finite t hpos' bits' value' fits' =>
      rename_i m j n m' j' n'
      rw [← apply_mul] at hfits ⊢
      rw [natAbs_apply] at hfits
      have hn : 0 < n * n' := Nat.mul_pos (pos_of_value hpos value) (pos_of_value hpos' value')
      obtain ⟨q, l, hq, hqbits, hql⟩ := exists_mantissa hn hfits
      have hvalues : m * m' * 2 ^ (j + j') = q * 2 ^ (l + 52) := by
        calc m * m' * 2 ^ (j + j') = m * 2 ^ j * (m' * 2 ^ j') := by ring
          _ = n * n' * 2 ^ 52 * 2 ^ 52 := by rw [value, value']; ring
          _ = q * 2 ^ (l + 52) := by rw [← hql, mul_assoc, ← pow_add]
      have hlog := log2_add_of_mul_pow_eq (Nat.mul_pos hpos hpos') hq hvalues
      have hbits : 104 ≤ (m * m').log2 := by
        refine (Nat.le_log2 (Nat.mul_pos hpos hpos').ne').2 ?_
        calc 2 ^ 104 = 2 ^ 52 * 2 ^ 52 := by norm_num
          _ ≤ m * m' := Nat.mul_le_mul (bits ▸ Nat.log2_self_le hpos.ne')
              (bits' ▸ Nat.log2_self_le hpos'.ne')
      -- The product has as many bits too many as it has zeros at its end.
      have hmantissa : m * m' = q * 2 ^ (l + 52 - (j + j')) := by
        refine Nat.eq_of_mul_eq_mul_right (Nat.two_pow_pos (j + j')) ?_
        rw [hvalues, mul_assoc, ← pow_add, Nat.sub_add_cancel (by omega)]
      unfold UnpackedFloat.mul
      dsimp only
      rw [hmantissa, roundWithAccuracy_exact (s * t) hqbits (by omega) hq,
        finite_congr (g := hq) (f := (l : Int) - 52) rfl (by omega)]
      exact .finite (s * t) hq hqbits hql hfits

/-! ## §5. Comparisons. -/

/-- Of numbers with as many bits, the one that begins at a higher place is greater. -/
theorem lt_of_place_lt {m j n m' j' n' : Nat} (hpos' : 0 < m') (hbits : m.log2 = 52)
    (hbits' : m'.log2 = 52) (hvalue : m * 2 ^ j = n * 2 ^ 52)
    (hvalue' : m' * 2 ^ j' = n' * 2 ^ 52) (hplace : j < j') : n < n' := by
  refine Nat.lt_of_mul_lt_mul_right (a := 2 ^ 52) ?_
  calc n * 2 ^ 52 = m * 2 ^ j := hvalue.symm
    _ < 2 ^ (m.log2 + 1) * 2 ^ j := Nat.mul_lt_mul_of_pos_right Nat.lt_log2_self (Nat.two_pow_pos j)
    _ = 2 ^ 52 * 2 ^ (j + 1) := by rw [hbits, ← pow_add, ← pow_add]; congr 1; omega
    _ ≤ m' * 2 ^ j' := Nat.mul_le_mul (hbits' ▸ Nat.log2_self_le hpos'.ne')
        (Nat.pow_le_pow_right (by decide) hplace)
    _ = n' * 2 ^ 52 := hvalue'

theorem compare_then {m j n m' j' n' : Nat} (hpos : 0 < m) (hpos' : 0 < m') (hbits : m.log2 = 52)
    (hbits' : m'.log2 = 52) (hvalue : m * 2 ^ j = n * 2 ^ 52)
    (hvalue' : m' * 2 ^ j' = n' * 2 ^ 52) :
    (compare ((j : Int) - 52) (j' - 52)).then (compare m m') = compare n n' := by
  rcases lt_trichotomy j j' with hlt | rfl | hgt
  · have hn := lt_of_place_lt hpos' hbits hbits' hvalue hvalue' hlt
    rw [Int.compare_eq_lt.2 (by omega), Nat.compare_eq_lt.2 hn]
    rfl
  · rw [Int.compare_eq_eq.2 rfl]
    have hpow := Nat.two_pow_pos j
    rcases lt_trichotomy m m' with hm | rfl | hm
    · have hn : n < n' := by
        have := Nat.mul_lt_mul_of_pos_right hm hpow
        omega
      rw [Nat.compare_eq_lt.2 hm, Nat.compare_eq_lt.2 hn]
      rfl
    · rw [Nat.compare_eq_eq.2 rfl, Nat.compare_eq_eq.2 (show n = n' by omega)]
      rfl
    · have hn : n' < n := by
        have := Nat.mul_lt_mul_of_pos_right hm hpow
        omega
      rw [Nat.compare_eq_gt.2 hm, Nat.compare_eq_gt.2 hn]
      rfl
  · have hn := lt_of_place_lt hpos hbits' hbits hvalue' hvalue hgt
    rw [Int.compare_eq_gt.2 (by omega), Nat.compare_eq_gt.2 hn]
    rfl

theorem compare_cast (m n : Nat) : compare (m : Int) n = compare m n := by
  rcases lt_trichotomy m n with h | rfl | h
  · rw [Nat.compare_eq_lt.2 h, Int.compare_eq_lt.2 (by omega)]
  · rw [Nat.compare_eq_eq.2 rfl, Int.compare_eq_eq.2 rfl]
  · rw [Nat.compare_eq_gt.2 h, Int.compare_eq_gt.2 (by omega)]

theorem compare_neg (m n : Int) : compare (-m) (-n) = (compare m n).swap := by
  rcases lt_trichotomy m n with h | rfl | h
  · rw [Int.compare_eq_lt.2 h, Int.compare_eq_gt.2 (by omega)]
    rfl
  · rw [Int.compare_eq_eq.2 rfl, Int.compare_eq_eq.2 rfl]
    rfl
  · rw [Int.compare_eq_gt.2 h, Int.compare_eq_lt.2 (by omega)]
    rfl

theorem compare_of_lt {m n : Int} (h : m < n) : some .lt = some (compare m n) :=
  congrArg some (Int.compare_eq_lt.2 h).symm

theorem compare_of_gt {m n : Int} (h : n < m) : some .gt = some (compare m n) :=
  congrArg some (Int.compare_eq_gt.2 h).symm

theorem negative_apply {n : Nat} (hn : 0 < n) : Sign.negative.apply n < 0 :=
  Int.neg_neg_of_pos (Int.natCast_pos.2 hn)

theorem positive_apply {n : Nat} (hn : 0 < n) : 0 < Sign.positive.apply n :=
  Int.natCast_pos.2 hn

/-- Signs come first; with the same sign the places and then the mantissas are compared. -/
theorem Holds.compare_eq (hu : Holds u a) (hv : Holds v b) :
    UnpackedFloat.compare u v = some (compare a b) := by
  cases hu with
  | zero s =>
    cases hv with
    | zero t => rfl
    | finite t hpos bits value fits =>
      have hn := pos_of_value hpos value
      cases t with
      | negative => exact compare_of_gt (negative_apply hn)
      | positive => exact compare_of_lt (positive_apply hn)
  | finite s hpos bits value fits =>
    have hn := pos_of_value hpos value
    cases hv with
    | zero t =>
      cases s with
      | negative => exact compare_of_lt (negative_apply hn)
      | positive => exact compare_of_gt (positive_apply hn)
    | finite t hpos' bits' value' fits' =>
      have hn' := pos_of_value hpos' value'
      have hthen := compare_then hpos hpos' bits bits' value value'
      cases s with
      | negative =>
        cases t with
        | negative =>
          show some (Ordering.swap _) = some (compare (-_) (-_))
          rw [hthen, compare_neg, compare_cast]
        | positive => exact compare_of_lt ((negative_apply hn).trans (positive_apply hn'))
      | positive =>
        cases t with
        | negative => exact compare_of_gt ((negative_apply hn').trans (positive_apply hn))
        | positive =>
          show some _ = some (compare _ _)
          rw [hthen]
          exact congrArg some (compare_cast _ _).symm

/-! ## §6. Floats that hold whole numbers. -/

/-- The float is exactly the whole number. -/
def IsWhole (x : Float) (n : Int) : Prop := Holds x.toModel.unpack n

variable {x y : Float}

theorem isWhole_pack (h : Holds u a) : IsWhole (.ofModel (Float.Model.pack u)) a := by
  show Holds (UnpackedFloat.unpack Format.binary64 (UnpackedFloat.pack Format.binary64 u)) a
  rw [h.unpack_pack]
  exact h

theorem IsWhole.sub (hx : IsWhole x a) (hy : IsWhole y b) (hfits : (a - b).natAbs ≤ 2 ^ 53) :
    IsWhole (x - y) (a - b) :=
  isWhole_pack (Holds.sub hx hy hfits)

theorem IsWhole.mul (hx : IsWhole x a) (hy : IsWhole y b) (hfits : (a * b).natAbs ≤ 2 ^ 53) :
    IsWhole (x * y) (a * b) :=
  isWhole_pack (Holds.mul hx hy hfits)

theorem IsWhole.lt_iff (hx : IsWhole x a) (hy : IsWhole y b) : x < y ↔ a < b := by
  show decide (UnpackedFloat.lt x.toModel.unpack y.toModel.unpack = true) = true ↔ a < b
  unfold UnpackedFloat.lt
  rw [Holds.compare_eq hx hy]
  simp [Int.compare_eq_lt]

theorem IsWhole.le_iff (hx : IsWhole x a) (hy : IsWhole y b) : x ≤ y ↔ a ≤ b := by
  show decide (UnpackedFloat.le x.toModel.unpack y.toModel.unpack = true) = true ↔ a ≤ b
  unfold UnpackedFloat.le
  rw [Holds.compare_eq hx hy]
  simp [Int.isLE_compare]

theorem IsWhole.beq_iff (hx : IsWhole x a) (hy : IsWhole y b) : (x == y) = true ↔ a = b := by
  show (UnpackedFloat.compare x.toModel.unpack y.toModel.unpack == some .eq) = true ↔ a = b
  rw [Holds.compare_eq hx hy]
  simp

theorem IsWhole.min (hx : IsWhole x a) (hy : IsWhole y b) : IsWhole (min x y) (min a b) := by
  show IsWhole (if x ≤ y then x else y) _
  by_cases h : a ≤ b
  · rw [if_pos ((hx.le_iff hy).2 h), min_eq_left h]
    exact hx
  · rw [if_neg (mt (hx.le_iff hy).1 h), min_eq_right (by omega)]
    exact hy

theorem IsWhole.max (hx : IsWhole x a) (hy : IsWhole y b) : IsWhole (max x y) (max a b) := by
  show IsWhole (if x ≤ y then y else x) _
  by_cases h : a ≤ b
  · rw [if_pos ((hx.le_iff hy).2 h), max_eq_right h]
    exact hy
  · rw [if_neg (mt (hx.le_iff hy).1 h), max_eq_left (by omega)]
    exact hx

theorem isWhole_toFloat {n : Nat} (hfits : n ≤ 2 ^ 53) : IsWhole n.toUInt64.toFloat n := by
  have hn : n.toUInt64.toNat = n := by
    rw [Nat.toUInt64_eq, UInt64.toNat_ofNat', Nat.mod_eq_of_lt (by omega)]
  refine isWhole_pack ?_
  unfold UnpackedFloat.ofUInt64 UnpackedFloat.ofNat UnpackedFloat.ofInt
  rw [hn]
  exact holds_normalize (j := 52) .positive rfl hfits

theorem isWhole_one : IsWhole (Float.exactlyRepresentablePowersOfTen[0]) 1 := by
  rw [show Float.exactlyRepresentablePowersOfTen[0] = (1 : Nat).toUInt64.toFloat by decide]
  exact isWhole_toFloat (by decide)

theorem isWhole_ofNat {n : Nat} (hfits : n < 2 ^ 53) : IsWhole (Float.ofNat n) n := by
  have hone := (isWhole_toFloat hfits.le).mul isWhole_one (by omega)
  rw [mul_one] at hone
  show IsWhole (Float.ofScientific n false 0) n
  unfold Float.ofScientific
  rw [dif_pos ⟨hfits, Nat.zero_le _⟩]
  exact hone

theorem Holds.neg (hu : Holds u a) : Holds (UnpackedFloat.neg u) (-a) := by
  cases hu with
  | zero s => exact .zero (-s)
  | finite s hpos bits value fits =>
    rw [← apply_neg]
    exact .finite (-s) hpos bits value fits

/-- Casting a whole number that fits is exact. -/
theorem isWhole_coord {n : Int} (hfits : n.natAbs < 2 ^ 53) : IsWhole (coord n) n := by
  show IsWhole (Float.ofInt n) n
  cases n with
  | ofNat n => exact isWhole_ofNat hfits
  | negSucc n => exact isWhole_pack (Holds.neg (isWhole_ofNat hfits))

end LogicBoard.WholeFloat
