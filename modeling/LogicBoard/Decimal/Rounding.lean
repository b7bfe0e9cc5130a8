/-
  LogicBoard.Decimal.Rounding
  ────────────────────────────────
  **ROUNDING TO DOUBLES.**

  The magnitude of a double is a whole multiple of `2^-1074`, so it is given
  here by that multiple, in *units*.  Sums apart, what is computed from two
  doubles is a ratio of whole numbers.  It is computed exactly and rounded
  once: the 53 leading binary digits are kept, or as many as there are above
  the unit, and of two neighbours that are equally near the even one counts.
-/
import LogicBoard.Decimal.Binary64

namespace LogicBoard.Binary64

/-! ## §1. Rounding. -/

/-- The whole number next to a ratio; the even one in the middle. -/
def nearest (n d : Nat) : Nat :=
  let below := n / d
  let rest := n % d
  if 2 * rest < d || (2 * rest = d && below % 2 = 0) then below else below + 1

/-- The magnitude next to a ratio of units. -/
def round (n d : Nat) : Nat :=
  let step := Nat.pow 2 ((n / d).log2 - 52)
  nearest n (d * step) * step

/-- The least magnitude that is too large for a double. -/
def beyond : Nat := Nat.pow 2 2098

/-- The double of a sign and a magnitude. -/
def ofUnits (negative : Bool) (u : Nat) : Binary64 :=
  let shift := u.log2 - 52
  let bits := shift * Nat.pow 2 52 + u / Nat.pow 2 shift
  ⟨UInt64.ofNat (if negative then Nat.pow 2 63 + bits else bits)⟩

/-! ## §2. Arithmetic. -/

/-- One, in units. -/
def unitsOfOne : Nat := Nat.pow 2 1074

/-- The magnitude next to a whole number. -/
def whole (n : Nat) : Nat := round (n * unitsOfOne) 1

/-- The magnitude next to the product of two magnitudes. -/
def product (u v : Nat) : Nat := round (u * v) unitsOfOne

/-- The magnitude next to the quotient of two magnitudes. -/
def quotient (u v : Nat) : Nat := round (u * unitsOfOne) v

end LogicBoard.Binary64
