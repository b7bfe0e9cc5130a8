/-
  LogicBoard.Text.Digits
  ────────────────────────────────
  **NUMBERS SPELLED BY DIGITS.**

  Only the ten decimal digits, and the letters up to F in hexadecimal, count
  as digits here.
-/
namespace LogicBoard.Text

/-- The value of a decimal digit. -/
def digitValue (c : Char) : Nat := c.toNat - '0'.toNat

/-- The value of a hexadecimal digit in lower or upper case. -/
def hexValue? (c : Char) : Option Nat :=
  if c.isDigit then some (digitValue c)
  else if 'a' ≤ c && c ≤ 'f' then some (c.toNat - 'a'.toNat + 10)
  else if 'A' ≤ c && c ≤ 'F' then some (c.toNat - 'A'.toNat + 10)
  else none

/-- The number that decimal digits spell. -/
def digitsValue (ds : List Char) : Nat := ds.foldl (fun n c => n * 10 + digitValue c) 0

/-- The number that a text of nothing but decimal digits spells. -/
def natural? (cs : List Char) : Option Nat :=
  if !cs.isEmpty && cs.all Char.isDigit then some (digitsValue cs) else none

/-- The number that decimal digits with or without a sign spell. -/
def integer? : List Char → Option Int
  | '-' :: cs => (natural? cs).map fun n => -n
  | '+' :: cs => (natural? cs).map Int.ofNat
  | cs => (natural? cs).map Int.ofNat

/-- The bytes that pairs of hexadecimal digits spell. -/
def hexBytes? : List Char → Option (List UInt8)
  | [] => some []
  | [_] => none
  | a :: b :: rest => do
    let n := (← hexValue? a) * 16 + (← hexValue? b)
    return UInt8.ofNat n :: (← hexBytes? rest)

end LogicBoard.Text
