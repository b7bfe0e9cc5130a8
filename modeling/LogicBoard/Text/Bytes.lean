/-
  LogicBoard.Text.Bytes
  ────────────────────────────────
  **BYTES SHOWN AS TEXT.**

  Bytes that are not UTF-8 can still be shown: every stretch that begins like
  a character and breaks off, and every byte that begins none, is replaced by
  one mark.
-/
namespace LogicBoard.Text

/-- How many bytes follow the first byte of a character, and the range of the next byte.  The range
leaves out longer spellings of shorter codes, surrogates and codes beyond the last character. -/
def following? (b : Nat) : Option (Nat × Nat × Nat) :=
  if 0xC2 ≤ b && b ≤ 0xDF then some (1, 0x80, 0xBF)
  else if b = 0xE0 then some (2, 0xA0, 0xBF)
  else if b = 0xED then some (2, 0x80, 0x9F)
  else if 0xE1 ≤ b && b ≤ 0xEF then some (2, 0x80, 0xBF)
  else if b = 0xF0 then some (3, 0x90, 0xBF)
  else if b = 0xF4 then some (3, 0x80, 0x8F)
  else if 0xF1 ≤ b && b ≤ 0xF3 then some (3, 0x80, 0xBF)
  else none

/-- The bytes that continue a character, as far as they do. -/
def continuation (n lo hi : Nat) : List Nat → List Nat
  | [] => []
  | b :: rest =>
    if lo ≤ b && b ≤ hi then b :: (rest.take (n - 1)).takeWhile fun c => 0x80 ≤ c && c ≤ 0xBF else []

/-- The mark in place of what is no text. -/
def replacement : Char := '\uFFFD'

/-- Bytes as characters; every character uses one unit of fuel. -/
def shownBytes : Nat → List Nat → List Char
  | 0, _ | _, [] => []
  | fuel + 1, b :: rest =>
    if b < 0x80 then Char.ofNat b :: shownBytes fuel rest
    else
      match following? b with
      | none => replacement :: shownBytes fuel rest
      | some (n, lo, hi) =>
        let more := continuation n lo hi rest
        if more.length < n then replacement :: shownBytes fuel (rest.drop more.length)
        else
          let code := more.foldl (fun a c => a * 64 + (c - 0x80)) (b % Nat.pow 2 (6 - n))
          Char.ofNat code :: shownBytes fuel (rest.drop n)

/-- Bytes as text. -/
def ofBytes (bytes : ByteArray) : String :=
  String.ofList (shownBytes bytes.size (bytes.data.toList.map UInt8.toNat))

end LogicBoard.Text
