/-
  LogicBoard.Design.Pin
  ────────────────────────────────
  **PINS, THE ENDS OF WIRES.**

  A pin is a named port on one side of a chip.  Its text is
  `chip.in.NAME` or `chip.out.NAME`; the chip may hold further dots, so a
  reference is cut at its last two dots.
-/
import LogicBoard.Design.Name

namespace LogicBoard

/-- A named port on the input or the output side of a chip. -/
structure Pin where
  chip : Name
  output : Bool
  port : String
deriving DecidableEq, Inhabited

namespace Pin

/-! ## §1. Making pins. -/

/-- The pin of a port as it was typed: ports are named in upper case. -/
def ofPort (chip : Name) (output : Bool) (port : String) : Pin :=
  ⟨chip, output, Text.upper port⟩

/-! ## §2. Text. -/

/-- The word for a side of a chip. -/
def sideText (output : Bool) : String :=
  if output then "out" else "in"

/-- The reference to a pin. -/
def text (p : Pin) : String :=
  p.chip.text ++ "." ++ sideText p.output ++ "." ++ p.port

/-- What stands before and after the last separator of a text. -/
def splitLast? (sep : Char) : List Char → Option (List Char × List Char)
  | [] => none
  | c :: rest =>
    match splitLast? sep rest with
    | some (front, back) => some (c :: front, back)
    | none => if c = sep then some ([], rest) else none

/-- The side that a word means, in any case: `true` is the output side. -/
def side? (word : List Char) : Option Bool :=
  let word := String.ofList (word.map Char.toLower)
  if word = "in" || word = "i" || word = "input" then some false
  else if word = "out" || word = "o" || word = "output" then some true
  else none

/-- Reads a reference to a pin. -/
def ofText? (s : String) : Option Pin := do
  let (front, port) ← splitLast? '.' s.toList
  let (chip, side) ← splitLast? '.' front
  let output ← side? side
  if chip.isEmpty || port.isEmpty then none
  else some (ofPort (.ofText (String.ofList chip)) output (String.ofList port))

/-- What is said of a text that is no reference to a pin. -/
def refusal (s : String) : String :=
  "invalid pin `" ++ s ++ "`: expected <chip>.in.<NAME> or <chip>.out.<NAME>"

end Pin

end LogicBoard
