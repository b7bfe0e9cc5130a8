/-
  LogicBoard.Decimal.Binary64
  ────────────────────────────────
  **DOUBLE PRECISION NUMBERS AND THEIR SHORTEST DECIMAL TEXT.**

  A finite double is `m · 2^q` with a whole `m`.  The reals that round to it
  form an interval around it.  Its text is the decimal number with the
  fewest digits inside that interval and, of several, the nearest one.  The
  search runs in whole numbers: for 1, 2, … digits it tries the two
  neighbours of the value on the grid of numbers with that many digits.
-/
namespace LogicBoard

/-- A double precision number, by its bits. -/
structure Binary64 where
  bits : UInt64
deriving DecidableEq, Inhabited

namespace Binary64

/-! ## §1. The number behind the bits. -/

/-- The number as the machine computes with it. -/
def toFloat (x : Binary64) : Float := Float.ofBits x.bits

/-- The bits of a machine number. -/
def ofFloat (f : Float) : Binary64 := ⟨f.toBits⟩

/-- Is the sign bit set? -/
def isNegative (x : Binary64) : Bool := Nat.pow 2 63 ≤ x.bits.toNat

/-- The eleven bits of the exponent. -/
def exponentBits (x : Binary64) : Nat := x.bits.toNat / Nat.pow 2 52 % Nat.pow 2 11

/-- The fifty-two bits of the fraction. -/
def fractionBits (x : Binary64) : Nat := x.bits.toNat % Nat.pow 2 52

/-- The whole number `m` in the magnitude `m · 2^q`. -/
def significand (x : Binary64) : Nat :=
  if x.exponentBits = 0 then x.fractionBits else Nat.pow 2 52 + x.fractionBits

/-- The power `q` in the magnitude `m · 2^q`. -/
def power (x : Binary64) : Int :=
  if x.exponentBits = 0 then -1074 else (x.exponentBits : Int) - 1075

/-! ## §2. The interval of reals that round to it, in quarter units. -/

/-- A positive rational number. -/
structure Ratio where
  num : Nat
  den : Nat

/-- The number `n · 2^e` as a rational. -/
def Ratio.ofPower (n : Nat) (e : Int) : Ratio :=
  if 0 ≤ e then ⟨n * Nat.pow 2 e.toNat, 1⟩ else ⟨n, Nat.pow 2 (-e).toNat⟩

/-- The magnitude. -/
def magnitude (x : Binary64) : Ratio :=
  .ofPower (4 * x.significand) (x.power - 2)

/-- The upper end of the interval that rounds to the magnitude. -/
def upperEnd (x : Binary64) : Ratio :=
  .ofPower (4 * x.significand + 2) (x.power - 2)

/-- The lower end of the interval, which is nearer right above a power of two. -/
def lowerEnd (x : Binary64) : Ratio :=
  let gap := if x.fractionBits = 0 && 1 < x.exponentBits then 1 else 2
  .ofPower (4 * x.significand - gap) (x.power - 2)

/-- Do the ends of the interval round to the number too? -/
def endsIncluded (x : Binary64) : Bool := x.significand % 2 = 0

/-! ## §3. Shortest digits. -/

/-- A decimal number `digits · 10^scale`. -/
structure Digits where
  digits : Nat
  scale : Int

/-- The decimal number as a rational. -/
def Digits.ratio (d : Digits) : Ratio :=
  if 0 ≤ d.scale then ⟨d.digits * Nat.pow 10 d.scale.toNat, 1⟩
  else ⟨d.digits, Nat.pow 10 (-d.scale).toNat⟩

/-- Compares two rationals. -/
def Ratio.order (a b : Ratio) : Ordering :=
  compare (a.num * b.den) (b.num * a.den)

/-- Does the decimal number round to the magnitude? -/
def admits (x : Binary64) (d : Digits) : Bool :=
  let low := x.lowerEnd.order d.ratio
  let high := d.ratio.order x.upperEnd
  if x.endsIncluded then low != .gt && high != .gt else low == .lt && high == .lt

/-- How many decimal digits a positive whole number has. -/
def digitCount (n : Nat) : Nat := (Nat.toDigits 10 n).length

/-- How often a fraction below one has to be multiplied by ten to reach one. -/
def leadingZeros (r : Ratio) : Nat → Nat
  | 0 => 0
  | fuel + 1 => if r.den ≤ r.num then 0 else 1 + leadingZeros ⟨r.num * 10, r.den⟩ fuel

/-- The exponent of the leading decimal digit. -/
def decimalExponent (r : Ratio) : Int :=
  if r.den ≤ r.num then (digitCount (r.num / r.den) : Int) - 1
  else -(leadingZeros r 400 : Int)

/-- The largest decimal number of the given scale that is not above the rational. -/
def roundDown (r : Ratio) (scale : Int) : Digits :=
  if 0 ≤ scale then ⟨r.num / (r.den * Nat.pow 10 scale.toNat), scale⟩
  else ⟨r.num * Nat.pow 10 (-scale).toNat / r.den, scale⟩

/-- The nearer of the two neighbours on a decimal grid; the even one in the middle. -/
def nearer (r : Ratio) (below : Digits) : Digits :=
  let above : Digits := ⟨below.digits + 1, below.scale⟩
  let middle : Ratio := ⟨2 * r.num, r.den⟩
  let sum : Ratio :=
    if 0 ≤ below.scale then ⟨(2 * below.digits + 1) * Nat.pow 10 below.scale.toNat, 1⟩
    else ⟨2 * below.digits + 1, Nat.pow 10 (-below.scale).toNat⟩
  match middle.order sum with
  | .lt => below
  | .gt => above
  | .eq => if below.digits % 2 = 0 then below else above

/-- The shortest decimal number that rounds to the magnitude, starting at a digit count. -/
def shortestFrom (x : Binary64) (count : Nat) : Nat → Digits
  | 0 => roundDown x.magnitude (decimalExponent x.magnitude - count)
  | fuel + 1 =>
    let below := roundDown x.magnitude (decimalExponent x.magnitude - count)
    let above : Digits := ⟨below.digits + 1, below.scale⟩
    match x.admits below, x.admits above with
    | true, true => nearer x.magnitude below
    | true, false => below
    | false, true => above
    | false, false => shortestFrom x (count + 1) fuel

/-- Drops the zeros that a decimal number ends with. -/
def Digits.trimmed (d : Digits) : Nat → Digits
  | 0 => d
  | fuel + 1 =>
    if d.digits ≠ 0 && d.digits % 10 = 0 then Digits.trimmed ⟨d.digits / 10, d.scale + 1⟩ fuel
    else d

/-- The shortest decimal number that rounds to the magnitude. -/
def shortest (x : Binary64) : Digits :=
  if x.significand = 0 then ⟨0, 0⟩ else (x.shortestFrom 0 17).trimmed 17

/-! ## §4. Text. -/

/-- How a decimal number is written. -/
structure Style where
  /-- The least exponent of the leading digit that is written without an exponent. -/
  leastPlain : Int
  /-- The greatest such exponent. -/
  greatestPlain : Int

/-- A run of zeros. -/
def zeros (n : Nat) : String := String.ofList (List.replicate n '0')

/-- The digits around a decimal point. -/
def plainText (ds : List Char) (scale : Int) : String :=
  let lead : Int := (ds.length : Int) + scale
  if 0 ≤ scale then String.ofList ds ++ zeros scale.toNat ++ ".0"
  else if 0 < lead then
    String.ofList (ds.take lead.toNat) ++ "." ++ String.ofList (ds.drop lead.toNat)
  else "0." ++ zeros (-lead).toNat ++ String.ofList ds

/-- One digit, the rest behind a decimal point, and a signed exponent. -/
def exponentText (ds : List Char) (exponent : Int) : String :=
  let fraction := if ds.length ≤ 1 then "" else "." ++ String.ofList (ds.drop 1)
  let sign := if exponent < 0 then "-" else "+"
  String.ofList (ds.take 1) ++ fraction ++ "e" ++ sign ++ toString exponent.natAbs

/-- The text of a finite number in a style. -/
def textIn (style : Style) (x : Binary64) : String :=
  let d := x.shortest
  let ds := Nat.toDigits 10 d.digits
  let exponent : Int := (ds.length : Int) - 1 + d.scale
  let body :=
    if style.leastPlain ≤ exponent && exponent ≤ style.greatestPlain then plainText ds d.scale
    else exponentText ds exponent
  if x.isNegative then "-" ++ body else body

end Binary64

end LogicBoard
