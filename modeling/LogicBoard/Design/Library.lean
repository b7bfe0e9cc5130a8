/-
  LogicBoard.Design.Library
  ────────────────────────────────
  **THE STANDARD CHIP TYPES.**

  Every design can use these types.  Their code is a template over the
  variables of one instance; `hole` writes the place where a variable goes.
-/
import LogicBoard.Design.Chip

namespace LogicBoard

namespace Library

/-! ## §1. Definitions. -/

/-- The place in a template where the value of a variable goes. -/
def hole (variable' : String) : String :=
  "\x7b\x7b " ++ variable' ++ " \x7d\x7d"

/-- A standard type that is one unit high. -/
def standardType (width : Int) (kind : String) (inputs outputs constants : List String)
    (description code : String) : ChipType :=
  { size := ⟨width, 1⟩, inputs, outputs, constants, content := .ofSize ⟨width, 1⟩,
    code := some code, kind, description }

/-- The statement that sets an output. -/
def set (output value : String) : String :=
  hole ("output_" ++ output) ++ " = " ++ value ++ ";"

/-- The value of an input. -/
def input (port : String) : String := hole ("input_" ++ port)

/-- A type with inputs `A` and `B` and output `R`. -/
def gate (description value : String) : ChipType :=
  standardType 1 "logic" ["A", "B"] ["R", ""] [] description (set "R" value)

/-- A type with input `A` and output `R`. -/
def follower (description value : String) : ChipType :=
  standardType 1 "logic" ["A", ""] ["R", ""] [] description (set "R" value)

/-! ## §2. The catalogue. -/

/-- A one bit adder with carry. -/
def adder : ChipType :=
  standardType 2 "arithmetic" ["A", "B", "CIN"] ["S", "COUT", ""] [] "One bit full adder."
    (set "S" ("(!!" ++ input "A" ++ " !== !!" ++ input "B" ++ ") !== !!" ++ input "CIN") ++ "\n" ++
      set "COUT" ("!!((" ++ input "A" ++ " && " ++ input "B" ++ ") || (" ++ input "CIN" ++ " && (" ++
        input "A" ++ " || " ++ input "B" ++ ")))"))

/-- A switch between two inputs. -/
def multiplexer : ChipType :=
  standardType 2 "routing" ["A", "B", "S"] ["R", "", ""] [] "R is B when S is on, otherwise A."
    (set "R" (input "S" ++ " ? " ++ input "B" ++ " : " ++ input "A"))

/-- A source of a fixed value. -/
def constant : ChipType :=
  standardType 1 "io" ["", ""] ["R", ""] ["VALUE"] "R always carries VALUE."
    (set "R" (hole "constant_VALUE"))

/-- The standard types with their names. -/
def catalogue : List (String × ChipType) := [
  ("and", gate "R is on when both A and B are on."
    ("!!(" ++ input "A" ++ " && " ++ input "B" ++ ")")),
  ("or", gate "R is on when A or B is on."
    ("!!(" ++ input "A" ++ " || " ++ input "B" ++ ")")),
  ("not", follower "R is the inverse of A." ("!" ++ input "A")),
  ("nand", gate "R is off only when both A and B are on."
    ("!(" ++ input "A" ++ " && " ++ input "B" ++ ")")),
  ("nor", gate "R is on only when A and B are both off."
    ("!(" ++ input "A" ++ " || " ++ input "B" ++ ")")),
  ("xor", gate "R is on when exactly one of A and B is on."
    ("!!" ++ input "A" ++ " !== !!" ++ input "B")),
  ("xnor", gate "R is on when A and B match."
    ("!!" ++ input "A" ++ " === !!" ++ input "B")),
  ("buffer", follower "R follows A." ("!!" ++ input "A")),
  ("const", constant),
  ("add", adder),
  ("mux", multiplexer)]

/-- The standard types by name. -/
def standard : TypeTable :=
  .ofList (catalogue.map fun e => (⟨e.1⟩, e.2.canonical))

end Library

end LogicBoard
