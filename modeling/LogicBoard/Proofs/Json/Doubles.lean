/-
  LogicBoard.Proofs.Json.Doubles
  ────────────────────────────────
  **A PRINTED DOUBLE IS READ AS A NUMBER.**

  Reading a double may give another one than was printed, because the reader
  rounds up to three times.  It could even give none: the reader refuses a
  literal whose double is too large.  It never does so for the text of a
  finite double.  What is multiplied is below the largest double with so much
  room that the roundings cannot leave it; only the largest double itself has
  to be looked at, with its own seventeen digits.

  Main statements:
    • `exists_scaleUp?` — when multiplying by a power of ten succeeds,
    • `exists_number?` — when a literal stands for a number,
    • `exists_readNumber?_double` — the text of a finite double is read,
    • `readNumber?_text` — so is the text of every number.
-/
import LogicBoard.Proofs.Decimal.Rounding
import LogicBoard.Proofs.Decimal.Shortest
import LogicBoard.Proofs.Json.Scalars

namespace LogicBoard.Json

open Binary64 (limit beyond whole product Digits Moderate)

/-! ## §1. Powers of ten. -/

/-- For the largest powers of ten, the most that is multiplied has to be looked at one by one. -/
theorem product_most : ∀ e < 20, product (whole (limit / 10 ^ (289 + e))) (powerOfTen (289 + e))
    < beyond := by
  decide +kernel

/-- For all others, the largest word stands for all of them. -/
theorem product_word : product (whole largestWord) (powerOfTen 288) < beyond := by decide +kernel

theorem powerOfTen_mono {e k : Nat} (h : e ≤ k) : powerOfTen e ≤ powerOfTen k := by
  unfold powerOfTen
  exact Binary64.whole_mono (Nat.pow_le_pow_right (by decide) h)

theorem product_lt {n e : Nat} (he : e ≤ largestPower) (hn : n ≤ largestWord)
    (h : n * 10 ^ e ≤ limit) : product (whole n) (powerOfTen e) < beyond := by
  by_cases hsmall : e ≤ 288
  · exact Nat.lt_of_le_of_lt
      (Binary64.product_mono (Binary64.whole_mono hn) (powerOfTen_mono hsmall)) product_word
  · have hmost : n ≤ limit / 10 ^ e := (Nat.le_div_iff_mul_le (Nat.pow_pos (by decide))).2 h
    obtain ⟨k, rfl⟩ : ∃ k, e = 289 + k := ⟨e - 289, by omega⟩
    have hk : k < 20 := by
      unfold largestPower at he
      omega
    exact Nat.lt_of_le_of_lt
      (Binary64.product_mono (Binary64.whole_mono hmost) (Nat.le_refl _)) (product_most k hk)

/-- A word is multiplied by a power of ten if the product is below the largest double. -/
theorem exists_scaleUp? {n e : Nat} (hn : n ≤ largestWord) (h : n * 10 ^ e ≤ limit) :
    ∃ v, scaleUp? (whole n) e = some v := by
  unfold scaleUp?
  by_cases he : e ≤ largestPower
  · rw [if_pos he]
    dsimp only
    rw [if_neg (Nat.not_le.2 (product_lt he hn h))]
    exact ⟨_, rfl⟩
  · -- Beyond the largest power of ten, nothing but zero is that small.
    have hzero : n = 0 := by
      have hlimit : limit < 10 ^ (largestPower + 1) := by decide +kernel
      have hpower : 10 ^ (largestPower + 1) ≤ 10 ^ e :=
        Nat.pow_le_pow_right (by decide) (Nat.lt_of_not_le he)
      refine Nat.le_zero.1 (Nat.le_of_not_lt fun hpos => ?_)
      have hone : 1 * 10 ^ e ≤ n * 10 ^ e := Nat.mul_le_mul_right _ hpos
      rw [Nat.one_mul] at hone
      exact absurd (Nat.le_trans hpower (Nat.le_trans hone h)) (Nat.not_le.2 hlimit)
    have hwhole : whole 0 = 0 := by decide +kernel
    rw [if_neg he, hzero, hwhole, if_pos rfl]
    exact ⟨0, rfl⟩

/-! ## §2. Literals. -/

/-- One more digit at the end of a number. -/
theorem foldl_digits_ge (ds : List Nat) (n : Nat) :
    n * 10 ^ ds.length ≤ ds.foldl (fun n d => n * 10 + d) n := by
  induction ds generalizing n with
  | nil => simp
  | cons d rest ih =>
    refine Nat.le_trans ?_ (ih (n * 10 + d))
    rw [List.length_cons, Nat.pow_succ', ← Nat.mul_assoc]
    exact Nat.mul_le_mul_right _ (Nat.le_add_right _ d)

theorem foldl_digits_lt {ds : List Nat} (h : ∀ d ∈ ds, d < 10) (n : Nat) :
    ds.foldl (fun n d => n * 10 + d) n < (n + 1) * 10 ^ ds.length := by
  induction ds generalizing n with
  | nil => simp
  | cons d rest ih =>
    obtain ⟨hd, hrest⟩ := List.forall_mem_cons.1 h
    refine Nat.lt_of_lt_of_le (ih hrest (n * 10 + d)) ?_
    rw [List.length_cons, Nat.pow_succ', ← Nat.mul_assoc]
    exact Nat.mul_le_mul_right _ (by omega)

/-- Digits are taken from the front, and what they make fits a word. -/
theorem appendDigits_split {n : Nat} (hn : n ≤ largestWord) (ds : List Nat) :
    ∃ taken, ds = taken ++ (appendDigits n ds).2 ∧
      (appendDigits n ds).1 = taken.foldl (fun n d => n * 10 + d) n ∧
      (appendDigits n ds).1 ≤ largestWord := by
  induction ds generalizing n with
  | nil => exact ⟨[], rfl, rfl, hn⟩
  | cons d rest ih =>
    unfold appendDigits
    split
    · rename_i hfits
      obtain ⟨taken, hsplit, hvalue, hle⟩ := ih hfits
      exact ⟨d :: taken, congrArg (d :: ·) hsplit, hvalue, hle⟩
    · exact ⟨[], rfl, rfl, hn⟩

/-- What is read of a fraction, scaled, is not more than the value of the whole literal. -/
theorem digits_le_limit {ds taken unused : List Nat} {n e : Nat}
    (hvalue : digitsValue (ds ++ (taken ++ unused)) * 10 ^ (e + taken.length)
      ≤ limit * 10 ^ (taken ++ unused).length)
    (hn : n = digitsValue (ds ++ taken)) : n * 10 ^ e ≤ limit := by
  have hkept : n * 10 ^ unused.length ≤ digitsValue (ds ++ (taken ++ unused)) := by
    rw [hn, ← List.append_assoc]
    exact Nat.le_trans (foldl_digits_ge unused _) (Nat.le_of_eq List.foldl_append.symm)
  have hpos : 0 < 10 ^ (taken ++ unused).length := Nat.pow_pos (by decide)
  refine Nat.le_of_mul_le_mul_right (?_ : _ * 10 ^ (taken ++ unused).length ≤ _) hpos
  calc n * 10 ^ e * 10 ^ (taken ++ unused).length
      = n * 10 ^ unused.length * 10 ^ (e + taken.length) := by
        simp only [List.length_append, Nat.pow_add, Nat.mul_comm, Nat.mul_left_comm, Nat.mul_assoc]
    _ ≤ digitsValue (ds ++ (taken ++ unused)) * 10 ^ (e + taken.length) :=
        Nat.mul_le_mul_right _ hkept
    _ ≤ limit * 10 ^ (taken ++ unused).length := hvalue

/-- A literal stands for a number if its digits before the point fit a word, and its value is not
above the limit. -/
theorem exists_number? {l : Literal} (hwhole : digitsValue l.whole ≤ largestWord)
    (hvalue : ∀ e : Nat, l.exponent.getD 0 = e →
      digitsValue (l.whole ++ l.fraction) * 10 ^ e ≤ limit * 10 ^ l.fraction.length) :
    ∃ n, l.number? = some n := by
  have hfirst : appendDigits 0 l.whole = (digitsValue l.whole, []) := appendDigits_eq hwhole
  unfold Literal.number?
  rw [hfirst]
  dsimp only
  split
  · exact ⟨_, rfl⟩
  · obtain ⟨taken, hsplit, hdigits, hword⟩ := appendDigits_split hwhole l.fraction
    generalize appendDigits (digitsValue l.whole) l.fraction = r at *
    obtain ⟨digits, unused⟩ := r
    dsimp only at *
    unfold scale?
    split
    · -- The exponent covers all fraction digits that were taken.
      rename_i hup
      have hlength : l.fraction.length = taken.length + unused.length := by
        rw [hsplit, List.length_append]
      obtain ⟨e, he⟩ : ∃ e : Nat, l.exponent.getD 0 = e + taken.length :=
        ⟨(l.exponent.getD 0 - taken.length).toNat, by
          simp only [List.length_nil] at hup
          omega⟩
      have hbound : digits * 10 ^ e ≤ limit := by
        have hscaled := hvalue (e + taken.length) he
        rw [hsplit] at hscaled
        refine digits_le_limit hscaled ?_
        unfold digitsValue
        rw [List.foldl_append]
        exact hdigits
      have hshift : (([] : List Nat).length : Int) - (l.fraction.length - unused.length)
          + l.exponent.getD 0 = (e : Int) := by
        simp only [List.length_nil]
        omega
      rw [hshift, Int.toNat_natCast]
      obtain ⟨v, hv⟩ := exists_scaleUp? hword hbound
      rw [hv]
      exact ⟨_, rfl⟩
    · exact ⟨_, rfl⟩

/-! ## §3. Digits around a point. -/

variable {w f rest : List Char} {n : Number}

theorem digitValue_lt {c : Char} (h : c.isDigit = true) : Text.digitValue c < 10 := by
  have hmost : c.toNat ≤ 57 := (Char.isDigit_iff_toNat.1 h).2
  show c.toNat - 48 < 10
  omega

theorem digitsValue_lt (h : ∀ c ∈ w, c.isDigit = true) :
    digitsValue (w.map Text.digitValue) < 10 ^ w.length := by
  have hdigits : ∀ d ∈ w.map Text.digitValue, d < 10 :=
    List.forall_mem_map.2 fun c hc => digitValue_lt (h c hc)
  have hlt := foldl_digits_lt hdigits 0
  rw [List.length_map, Nat.zero_add, Nat.one_mul] at hlt
  exact hlt

/-- All digits of a literal together. -/
theorem digitsValue_append (n : Nat) (h : w ++ f = Nat.toDigits 10 n) :
    digitsValue (w.map Text.digitValue ++ f.map Text.digitValue) = n := by
  rw [← List.map_append, h]
  exact foldl_toDigits n

theorem readFraction?_digits (hf : ∀ c ∈ f, c.isDigit = true) (hne : f ≠ [])
    (hrest : StopsDigits rest) :
    readFraction? ('.' :: (f ++ rest)) = some (f.map Text.digitValue, rest) := by
  simp only [readFraction?, takeDigits_append hf hrest]
  cases f with
  | nil => exact absurd rfl hne
  | cons c cs => rfl

/-- Digits with a point among them are read as their literal. -/
theorem readUnsigned?_plain {negative : Bool} (hw : IsWhole w) (hf : ∀ c ∈ f, c.isDigit = true)
    (hne : f ≠ []) (hn : (⟨negative, w.map Text.digitValue, f.map Text.digitValue, none⟩
      : Literal).number? = some n) (hrest : IsEnd rest) :
    readUnsigned? negative (w ++ '.' :: (f ++ rest)) = some (.number n, rest) := by
  have hpoint : StopsDigits ('.' :: (f ++ rest)) := by
    intro c hc
    rw [← Option.some.inj hc]
    rfl
  have hexponent : readExponent? rest = some (none, rest) := by
    rcases hrest.cases with rfl | ⟨r, rfl⟩ | ⟨r, rfl⟩ <;> rfl
  unfold readUnsigned?
  rw [hw.readWhole? hpoint]
  simp only [Option.bind_eq_bind, Option.bind_some, readFraction?_digits hf hne hrest.stops,
    hexponent, hn]
  rfl

theorem mem_zeros {k : Nat} {c : Char} (h : c ∈ (Binary64.zeros k).toList) : c.isDigit = true := by
  unfold Binary64.zeros at h
  rw [String.toList_ofList] at h
  rw [List.eq_of_mem_replicate h]
  rfl

theorem mem_toDigits {k : Nat} {c : Char} (h : c ∈ Nat.toDigits 10 k) : c.isDigit = true :=
  Nat.isDigit_of_mem_toDigits (by decide) (by decide) h

/-- Only zero begins with the digit zero. -/
theorem eq_zero_of_head {k : Nat} {c : Char} {cs : List Char} (h : Nat.toDigits 10 k = c :: cs)
    (hc : Text.digitValue c = 0) : k = 0 ∧ cs = [] := by
  obtain rfl := toDigits_head h hc
  have hvalue := foldl_toDigits k
  rw [h] at hvalue
  simp only [List.map_cons, List.map_nil, List.foldl_cons, List.foldl_nil, hc] at hvalue
  exact ⟨hvalue.symm, rfl⟩

theorem length_zeros (k : Nat) : (Binary64.zeros k).toList.length = k := by
  unfold Binary64.zeros
  rw [String.toList_ofList, List.length_replicate]

/-- Zeros may follow a number that is not zero itself. -/
theorem isWhole_append_zeros {n k : Nat} (h : n = 0 → k = 0) :
    IsWhole (Nat.toDigits 10 n ++ (Binary64.zeros k).toList) := by
  constructor
  case digits =>
    intro c hc
    rcases List.mem_append.1 hc with hc | hc
    · exact mem_toDigits hc
    · exact mem_zeros hc
  case nonempty => simp [Nat.toDigits_ne_nil]
  case head =>
    -- A zero in front is the only digit, and then no zeros follow.
    intro c cs hsplit hc
    cases hcases : Nat.toDigits 10 n with
    | nil => exact absurd hcases Nat.toDigits_ne_nil
    | cons c' cs' =>
      rw [hcases, List.cons_append] at hsplit
      obtain ⟨rfl, rfl⟩ := List.cons.inj hsplit
      obtain ⟨hzero, rfl⟩ := eq_zero_of_head hcases hc
      rw [h hzero]
      rfl

/-- The first digits of a number that has more. -/
theorem isWhole_take {n count : Nat} (hpos : 0 < count)
    (hless : count < (Nat.toDigits 10 n).length) : IsWhole ((Nat.toDigits 10 n).take count) := by
  constructor
  case digits => exact fun c hc => mem_toDigits (List.mem_of_mem_take hc)
  case nonempty =>
    rw [Ne, List.take_eq_nil_iff, not_or]
    exact ⟨by omega, Nat.toDigits_ne_nil⟩
  case head =>
    -- There are two digits at least, so the first one is not zero.
    intro c cs hsplit hc
    cases hcases : Nat.toDigits 10 n with
    | nil => exact absurd hcases Nat.toDigits_ne_nil
    | cons c' cs' =>
      obtain ⟨k, rfl⟩ : ∃ k, count = k + 1 := ⟨count - 1, by omega⟩
      rw [hcases, List.take_succ_cons] at hsplit
      obtain ⟨rfl, -⟩ := List.cons.inj hsplit
      obtain ⟨-, rfl⟩ := eq_zero_of_head hcases hc
      rw [hcases] at hless
      simp at hless

/-- Digits with a point among them: at most as many before the point as there are up to the unit. -/
theorem exists_plainText {d : Digits} (hd : d.digits = 0 → d.scale ≤ 0)
    (hlead : ((Nat.toDigits 10 d.digits).length : Int) + d.scale ≤ 16) :
    ∃ w f, (Binary64.plainText (Nat.toDigits 10 d.digits) d.scale).toList = w ++ '.' :: f ∧
      IsWhole w ∧ w.length ≤ 16 ∧ f ≠ [] ∧ ∀ c ∈ f, c.isDigit = true := by
  unfold Binary64.plainText
  dsimp only
  by_cases hscale : 0 ≤ d.scale
  · rw [if_pos hscale]
    refine ⟨_, ['0'], by simp [String.toList_append],
      isWhole_append_zeros (n := d.digits) (k := d.scale.toNat) ?_, ?_, by simp, by simp⟩
    · intro hzero
      have hnone := hd hzero
      omega
    · rw [List.length_append, length_zeros]
      omega
  · rw [if_neg hscale]
    by_cases hpoint : 0 < ((Nat.toDigits 10 d.digits).length : Int) + d.scale
    · rw [if_pos hpoint]
      generalize hcount : (((Nat.toDigits 10 d.digits).length : Int) + d.scale).toNat = count
      have hless : count < (Nat.toDigits 10 d.digits).length := by omega
      refine ⟨(Nat.toDigits 10 d.digits).take count, (Nat.toDigits 10 d.digits).drop count,
        by simp [String.toList_append], isWhole_take (by omega) hless, ?_, ?_,
        fun c hc => mem_toDigits (List.mem_of_mem_drop hc)⟩
      · rw [List.length_take]
        omega
      · rw [Ne, List.drop_eq_nil_iff]
        omega
    · rw [if_neg hpoint]
      generalize (-(((Nat.toDigits 10 d.digits).length : Int) + d.scale)).toNat = count
      refine ⟨['0'], (Binary64.zeros count).toList ++ Nat.toDigits 10 d.digits,
        by simp [String.toList_append],
        ⟨List.forall_mem_singleton.2 (by decide), by simp, ?_⟩, by decide, ?_, ?_⟩
      · intro c cs hsplit _
        exact (List.cons.inj hsplit).2.symm
      · simp [Nat.toDigits_ne_nil]
      · intro c hc
        rcases List.mem_append.1 hc with hc | hc
        · exact mem_zeros hc
        · exact mem_toDigits hc

/-- A text without an exponent is short enough before the point. -/
theorem exists_readUnsigned?_plain (negative : Bool) {d : Digits} (hd : d.digits = 0 → d.scale ≤ 0)
    (hlead : ((Nat.toDigits 10 d.digits).length : Int) + d.scale ≤ 16) :
    ∃ n, ∀ rest, IsEnd rest → readUnsigned? negative
      ((Binary64.plainText (Nat.toDigits 10 d.digits) d.scale).toList ++ rest)
        = some (.number n, rest) := by
  obtain ⟨w, f, htext, hw, hlength, hne, hf⟩ := exists_plainText hd hlead
  have hsixteen : digitsValue (w.map Text.digitValue) < 10 ^ 16 :=
    Nat.lt_of_lt_of_le (digitsValue_lt hw.digits) (Nat.pow_le_pow_right (by decide) hlength)
  obtain ⟨n, hn⟩ := exists_number?
    (l := ⟨negative, w.map Text.digitValue, f.map Text.digitValue, none⟩)
    (Nat.le_of_lt (Nat.lt_trans hsixteen (by decide))) (by
      intro e he
      obtain rfl : 0 = e := Int.ofNat.inj he
      have hall : ∀ c ∈ w ++ f, c.isDigit = true := by
        intro c hc
        rcases List.mem_append.1 hc with hc | hc
        · exact hw.digits c hc
        · exact hf c hc
      have hlt := digitsValue_lt hall
      have hlimit : 10 ^ 16 ≤ limit := by decide +kernel
      rw [Nat.pow_zero, Nat.mul_one, ← List.map_append]
      calc digitsValue ((w ++ f).map Text.digitValue)
          ≤ 10 ^ (w ++ f).length := Nat.le_of_lt hlt
        _ = 10 ^ w.length * 10 ^ f.length := by rw [List.length_append, Nat.pow_add]
        _ ≤ limit * 10 ^ f.length := Nat.mul_le_mul_right _
            (Nat.le_trans (Nat.pow_le_pow_right (by decide) hlength) hlimit)
        _ = limit * 10 ^ (f.map Text.digitValue).length := by rw [List.length_map])
  refine ⟨n, fun rest hrest => ?_⟩
  rw [htext, List.append_assoc, List.cons_append]
  exact readUnsigned?_plain hw hf hne hn hrest

/-! ## §4. Digits with an exponent. -/

theorem readExponentDigits?_toDigits (negative : Bool) (k : Nat) (hrest : IsEnd rest) :
    readExponentDigits? negative (Nat.toDigits 10 k ++ rest)
      = some (some (if negative then -(k : Int) else k), rest) := by
  have hvalue : digitsValue ((Nat.toDigits 10 k).map Text.digitValue) = k := foldl_toDigits k
  unfold readExponentDigits?
  rw [takeDigits_append (fun _ => mem_toDigits) hrest.stops]
  cases hdigits : Nat.toDigits 10 k with
  | nil => exact absurd hdigits Nat.toDigits_ne_nil
  | cons c cs =>
    rw [hdigits] at hvalue
    rw [List.map_cons] at hvalue ⊢
    dsimp only
    rw [hvalue]

/-- The exponent is read with its sign. -/
theorem readExponent?_signed (e : Int) (hrest : IsEnd rest) :
    readExponent? ('e' :: (if e < 0 then '-' else '+') :: (Nat.toDigits 10 e.natAbs ++ rest))
      = some (some e, rest) := by
  by_cases he : e < 0
  · rw [if_pos he]
    show readExponentDigits? true _ = _
    rw [readExponentDigits?_toDigits true _ hrest, if_pos rfl]
    have habs : -(e.natAbs : Int) = e := by omega
    rw [habs]
  · rw [if_neg he]
    show readExponentDigits? false _ = _
    rw [readExponentDigits?_toDigits false _ hrest, if_neg (by simp)]
    have habs : (e.natAbs : Int) = e := by omega
    rw [habs]

/-- The fraction of a text with an exponent; there is no point without it. -/
def fractionText (cs : List Char) : List Char := if cs = [] then [] else '.' :: cs

theorem toList_exponentText (c : Char) (cs : List Char) (e : Int) :
    (Binary64.exponentText (c :: cs) e).toList = c :: (fractionText cs
      ++ 'e' :: (if e < 0 then '-' else '+') :: Nat.toDigits 10 e.natAbs) := by
  have htext : (toString e.natAbs).toList = Nat.toDigits 10 e.natAbs := Nat.toList_repr
  have hsign : (if e < 0 then "-" else "+").toList = [if e < 0 then '-' else '+'] := by
    split <;> rfl
  unfold Binary64.exponentText fractionText
  dsimp only
  simp only [String.toList_append, htext, hsign]
  cases cs with
  | nil => simp
  | cons c' cs' => simp [String.toList_append]

/-- Behind the first digit there is a fraction or the exponent at once. -/
theorem readFraction?_fractionText {cs : List Char} (hcs : ∀ d ∈ cs, d.isDigit = true)
    (tail : List Char) : StopsDigits (fractionText cs ++ 'e' :: tail) ∧
      readFraction? (fractionText cs ++ 'e' :: tail)
        = some (cs.map Text.digitValue, 'e' :: tail) := by
  have hmark : StopsDigits ('e' :: tail) := by
    intro d hd
    rw [← Option.some.inj hd]
    rfl
  unfold fractionText
  by_cases hnone : cs = []
  · rw [if_pos hnone, hnone]
    exact ⟨hmark, rfl⟩
  · rw [if_neg hnone]
    refine ⟨?_, readFraction?_digits hcs hnone hmark⟩
    intro d hd
    rw [← Option.some.inj hd]
    rfl

/-- One digit, a fraction if there are more, and an exponent are read as their literal. -/
theorem readUnsigned?_exponent {negative : Bool} {c : Char} {cs : List Char}
    (hdigits : ∀ d ∈ c :: cs, d.isDigit = true) {e : Int}
    (hn : (⟨negative, [Text.digitValue c], cs.map Text.digitValue, some e⟩ : Literal).number?
      = some n) (hrest : IsEnd rest) :
    readUnsigned? negative ((Binary64.exponentText (c :: cs) e).toList ++ rest)
      = some (.number n, rest) := by
  obtain ⟨hc, hcs⟩ := List.forall_mem_cons.1 hdigits
  have hone : IsWhole [c] := by
    refine ⟨List.forall_mem_singleton.2 hc, by simp, ?_⟩
    intro d ds hsplit _
    exact (List.cons.inj hsplit).2.symm
  obtain ⟨hstop, hfraction⟩ := readFraction?_fractionText hcs
    ((if e < 0 then '-' else '+') :: (Nat.toDigits 10 e.natAbs ++ rest))
  have hwhole := hone.readWhole? hstop
  unfold readUnsigned?
  rw [toList_exponentText]
  simp only [List.cons_append, List.nil_append, List.append_assoc, List.map_cons, List.map_nil]
    at hwhole ⊢
  simp only [hwhole, Option.bind_eq_bind, Option.bind_some, hfraction,
    readExponent?_signed e hrest, hn]
  rfl

/-- A text with an exponent stands for a number if it does not go beyond the limit. -/
theorem exists_readUnsigned?_exponent (negative : Bool) {d : Digits} (hd : d.ratio.AtMost limit) :
    ∃ n, ∀ rest, IsEnd rest → readUnsigned? negative
      ((Binary64.exponentText (Nat.toDigits 10 d.digits)
        ((Nat.toDigits 10 d.digits).length - 1 + d.scale)).toList ++ rest)
          = some (.number n, rest) := by
  cases hdigits : Nat.toDigits 10 d.digits with
  | nil => exact absurd hdigits Nat.toDigits_ne_nil
  | cons c cs =>
    have hall : ∀ k ∈ c :: cs, k.isDigit = true := fun k hk => mem_toDigits (hdigits ▸ hk)
    have hvalue : digitsValue ([Text.digitValue c] ++ cs.map Text.digitValue) = d.digits :=
      digitsValue_append (w := [c]) (f := cs) d.digits (by rw [hdigits]; rfl)
    obtain ⟨n, hn⟩ := exists_number? (l := ⟨negative, [Text.digitValue c], cs.map Text.digitValue,
      some (((c :: cs).length : Int) - 1 + d.scale)⟩) (by
        have hc := digitValue_lt (hall c List.mem_cons_self)
        show 0 * 10 + Text.digitValue c ≤ largestWord
        unfold largestWord
        omega) (by
        intro e he
        replace he : ((c :: cs).length : Int) - 1 + d.scale = e := he
        rw [List.length_cons] at he
        rw [hvalue, List.length_map]
        unfold Binary64.Ratio.AtMost Digits.ratio at hd
        by_cases hscale : 0 ≤ d.scale
        · rw [if_pos hscale] at hd
          replace hd : d.digits * 10 ^ d.scale.toNat ≤ limit * 1 := hd
          have hsum : e = d.scale.toNat + cs.length := by omega
          rw [Nat.mul_one] at hd
          rw [hsum, Nat.pow_add, ← Nat.mul_assoc]
          exact Nat.mul_le_mul_right _ hd
        · rw [if_neg hscale] at hd
          replace hd : d.digits ≤ limit * 10 ^ (-d.scale).toNat := hd
          have hsum : cs.length = (-d.scale).toNat + e := by omega
          rw [hsum, Nat.pow_add, ← Nat.mul_assoc]
          exact Nat.mul_le_mul_right _ hd)
    exact ⟨n, fun rest hrest => readUnsigned?_exponent hall hn hrest⟩

/-! ## §5. Doubles. -/

/-- The text of a double without its sign. -/
def doubleBody (x : Binary64) : String :=
  let d := x.shortest
  let ds := Nat.toDigits 10 d.digits
  let exponent : Int := (ds.length : Int) - 1 + d.scale
  if doubleStyle.leastPlain ≤ exponent && exponent ≤ doubleStyle.greatestPlain then
    Binary64.plainText ds d.scale
  else Binary64.exponentText ds exponent

theorem textIn_eq (x : Binary64) :
    x.textIn doubleStyle = if x.isNegative then "-" ++ doubleBody x else doubleBody x := rfl

/-- The seventeen digits of the largest double. -/
theorem largest_shortest {x : Binary64} (h : x.IsLargest) :
    x.shortest.digits = 17976931348623157 ∧ x.shortest.scale = 292 := by
  rcases Binary64.isLargest_bits h with rfl | rfl
  · decide +kernel
  · decide +kernel

theorem exists_readUnsigned?_double (negative : Bool) {x : Binary64} (hx : x.IsFinite) :
    ∃ n, ∀ rest, IsEnd rest →
      readUnsigned? negative ((doubleBody x).toList ++ rest) = some (.number n, rest) := by
  unfold doubleBody
  dsimp only
  by_cases hlargest : x.IsLargest
  · -- Its seventeen digits are multiplied to the largest double again.
    obtain ⟨hdigits, hscale⟩ := largest_shortest hlargest
    have hnumber : ∀ negative, ∃ n, (⟨negative, [1],
        [7, 9, 7, 6, 9, 3, 1, 3, 4, 8, 6, 2, 3, 1, 5, 7], some 308⟩ : Literal).number? = some n := by
      intro negative
      cases negative
      · exact Option.isSome_iff_exists.1 (by decide +kernel)
      · exact Option.isSome_iff_exists.1 (by decide +kernel)
    obtain ⟨n, hn⟩ := hnumber negative
    have hchars : Nat.toDigits 10 17976931348623157 = '1' :: "7976931348623157".toList := by
      decide +kernel
    have hdecimal : ∀ c ∈ '1' :: "7976931348623157".toList, c.isDigit = true :=
      fun c hc => mem_toDigits (hchars ▸ hc)
    refine ⟨n, fun rest hrest => ?_⟩
    rw [hdigits, hscale, hchars, if_neg (by decide)]
    exact readUnsigned?_exponent hdecimal hn hrest
  · have hmoderate := Binary64.moderate_shortest hx hlargest
    split
    · rename_i hplain
      obtain ⟨-, hmost⟩ := Bool.and_eq_true_iff.1 hplain
      have hlead : ((Nat.toDigits 10 x.shortest.digits).length : Int) - 1 + x.shortest.scale ≤ 15 :=
        of_decide_eq_true hmost
      exact exists_readUnsigned?_plain negative hmoderate.scale (by omega)
    · exact exists_readUnsigned?_exponent negative hmoderate.atMost

/-- What is read without a sign begins with a digit. -/
theorem exists_head_unsigned {negative : Bool} {cs : List Char} {r : Json × List Char}
    (h : readUnsigned? negative cs = some r) : ∃ c tail, cs = c :: tail ∧ c.isDigit = true := by
  unfold readUnsigned? readWhole? takeDigits at h
  cases cs with
  | nil => simp at h
  | cons c tail =>
    by_cases hc : c.isDigit = true
    · exact ⟨c, tail, rfl, hc⟩
    · rw [List.takeWhile_cons_of_neg hc] at h
      simp at h

/-- A number begins with a digit or with a minus sign. -/
theorem exists_head_number {cs : List Char} {r : Json × List Char} (h : readNumber? cs = some r) :
    ∃ c tail, cs = c :: tail ∧ (c.isDigit = true ∨ c = '-') := by
  unfold readNumber? at h
  split at h
  · exact ⟨_, _, rfl, Or.inr rfl⟩
  · obtain ⟨c, tail, hcs, hc⟩ := exists_head_unsigned h
    exact ⟨c, tail, hcs, Or.inl hc⟩

theorem readNumber?_of_unsigned {cs : List Char} {r : Json × List Char}
    (h : readUnsigned? false cs = some r) : readNumber? cs = some r := by
  obtain ⟨c, tail, rfl, hc⟩ := exists_head_unsigned h
  unfold readNumber?
  split
  · rename_i heq
    obtain ⟨rfl, -⟩ := List.cons.inj heq
    exact absurd hc (by decide)
  · exact h

/-- The text of a finite double is read as a number. -/
theorem exists_readNumber?_double {x : Binary64} (hx : x.IsFinite) :
    ∃ n, ∀ rest, IsEnd rest →
      readNumber? ((x.textIn doubleStyle).toList ++ rest) = some (.number n, rest) := by
  rw [textIn_eq]
  cases x.isNegative with
  | false =>
    obtain ⟨n, hn⟩ := exists_readUnsigned?_double false hx
    exact ⟨n, fun rest hrest => readNumber?_of_unsigned (hn rest hrest)⟩
  | true =>
    obtain ⟨n, hn⟩ := exists_readUnsigned?_double true hx
    refine ⟨n, fun rest hrest => ?_⟩
    rw [if_pos rfl, String.toList_append]
    exact hn rest hrest

/-! ## §6. Numbers. -/

/-- A whole number of 64 bits with or without sign, or a finite double. -/
def Number.IsMachine : Number → Prop
  | .int n => -0x8000000000000000 ≤ n ∧ n ≤ 0xFFFFFFFFFFFFFFFF
  | .double x => x.IsFinite

/-- The number that is read when a number has been printed. -/
def Number.reread (n : Number) : Number :=
  match readNumber? n.text.toList with
  | some (.number m, []) => m
  | _ => n

/-- A number that is read back whatever follows is the one that it rereads as. -/
theorem reread_eq {n m : Number}
    (h : ∀ rest, IsEnd rest → readNumber? (n.text.toList ++ rest) = some (.number m, rest)) :
    n.reread = m := by
  have hread := h [] (by simp [IsEnd])
  rw [List.append_nil] at hread
  unfold Number.reread
  rw [hread]

theorem reread_int {k : Int} (h : (Number.int k).IsMachine) : (Number.int k).reread = .int k :=
  reread_eq fun _ hrest => readNumber?_int h.1 h.2 hrest

/-- The text of a number is read, whatever follows. -/
theorem readNumber?_text {n : Number} (h : n.IsMachine) (hrest : IsEnd rest) :
    readNumber? (n.text.toList ++ rest) = some (.number n.reread, rest) := by
  cases n with
  | int k =>
    rw [reread_int h]
    exact readNumber?_int h.1 h.2 hrest
  | double x =>
    obtain ⟨m, hm⟩ := exists_readNumber?_double h
    rw [reread_eq (n := .double x) hm]
    exact hm rest hrest

theorem exists_head_text {n : Number} (h : n.IsMachine) :
    ∃ c cs, n.text.toList = c :: cs ∧ (c.isDigit = true ∨ c = '-') := by
  have hend : IsEnd [] := by simp [IsEnd]
  have hread := readNumber?_text h hend
  rw [List.append_nil] at hread
  obtain ⟨c, cs, htext, hc⟩ := exists_head_number hread
  exact ⟨c, cs, htext, hc⟩

end LogicBoard.Json
