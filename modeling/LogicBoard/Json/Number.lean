/-
  LogicBoard.Json.Number
  ────────────────────────────────
  **NUMBERS OF A JSON TEXT.**

  A literal without fraction and exponent that fits 64 bits is a whole
  number and stays one.  Every other literal is a double: its leading
  digits, as many as fit 64 bits, are multiplied or divided by a power of
  ten in double arithmetic, so they are rounded up to three times.  A
  literal whose double is too large is no number, and `-0` is the double
  with the sign bit set.
-/
import LogicBoard.Decimal.Rounding

namespace LogicBoard.Json

/-! ## §1. Numbers. -/

/-- A number of a JSON document. -/
inductive Number where
  | int (n : Int)
  | double (x : Binary64)
deriving DecidableEq, Inhabited

/-- Doubles whose leading digit has an exponent from -5 to 15 are written without an exponent. -/
def doubleStyle : Binary64.Style := ⟨-5, 15⟩

/-- The text of a number. -/
def Number.text : Number → String
  | .int n => toString n
  | .double x => x.textIn doubleStyle

/-- The whole number behind a number, if it is written as one. -/
def Number.int? : Number → Option Int
  | .int n => some n
  | .double _ => none

/-- The number as a machine number. -/
def Number.toFloat : Number → Float
  | .int n => Float.ofInt n
  | .double x => x.toFloat

/-! ## §2. Literals. -/

/-- The spelling of a number: sign, digits before the point, digits after it, exponent. -/
structure Literal where
  negative : Bool
  whole : List Nat
  fraction : List Nat
  /-- The exponent; a literal may have none. -/
  exponent : Option Int

/-- The largest number that 64 bits hold. -/
def largestWord : Nat := 0xFFFFFFFFFFFFFFFF

/-- Appends digits to a number as long as the result fits 64 bits; returns the digits left over. -/
def appendDigits (n : Nat) : List Nat → Nat × List Nat
  | [] => (n, [])
  | d :: rest => if n * 10 + d ≤ largestWord then appendDigits (n * 10 + d) rest else (n, d :: rest)

/-- Ten to a power, as a double in units. -/
def powerOfTen (e : Nat) : Nat := Binary64.whole (Nat.pow 10 e)

/-- The largest power of ten that a double holds. -/
def largestPower : Nat := 308

/-- Multiplies a double by a power of ten; `none` if the result is too large. -/
def scaleUp? (u e : Nat) : Option Nat :=
  if e ≤ largestPower then
    let v := Binary64.product u (powerOfTen e)
    if Binary64.beyond ≤ v then none else some v
  else if u = 0 then some u
  else none

/-- Divides a double by a power of ten, in steps that a double can hold. -/
def scaleDown (u e : Nat) : Nat :=
  if e ≤ largestPower then Binary64.quotient u (powerOfTen e)
  else if u = 0 then u
  else scaleDown (Binary64.quotient u (powerOfTen largestPower)) (e - largestPower)
termination_by e
decreasing_by simp_all [largestPower]; omega

/-- Multiplies a double by a power of ten with any exponent. -/
def scale? (u : Nat) (e : Int) : Option Nat :=
  if 0 ≤ e then scaleUp? u e.toNat else some (scaleDown u (-e).toNat)

/-- A double with the sign of the literal. -/
def signed (negative : Bool) (u : Nat) : Number := .double (.ofUnits negative u)

/-- The whole number of a literal whose digits fit 64 bits. -/
def wholeNumber (negative : Bool) (n : Nat) : Number :=
  if !negative then .int n
  else if n = 0 || 0x8000000000000000 < n then signed true (Binary64.whole n)
  else .int (-(n : Int))

/-- The number a literal stands for, if a double can hold it. -/
def Literal.number? (l : Literal) : Option Number :=
  let (whole, surplus) := appendDigits 0 l.whole
  if surplus.isEmpty && l.fraction.isEmpty && l.exponent.isNone then
    some (wholeNumber l.negative whole)
  else
    let (digits, unused) := appendDigits whole l.fraction
    let shift : Int := (surplus.length : Int) - ((l.fraction.length : Int) - unused.length)
    (scale? (Binary64.whole digits) (shift + l.exponent.getD 0)).map (signed l.negative)

end LogicBoard.Json
