/-
  LogicBoard.Design.Constant
  ────────────────────────────────
  **VALUES OF CONSTANT SLOTS.**

  A chip type may declare constant slots.  What a chip puts into one is a
  number or a text, and the empty text stands for nothing.
-/
import LogicBoard.Json.Printer
import LogicBoard.Json.Reader
import LogicBoard.Text.Blank

namespace LogicBoard

/-- The value of a constant slot. -/
inductive Constant where
  | number (n : Json.Number)
  | text (s : String)
deriving DecidableEq

namespace Constant

/-- The value of a slot that nobody filled in. -/
def unset : Constant := .text ""

instance : Inhabited Constant := ⟨unset⟩

/-- Is the slot not filled in? -/
def isUnset (c : Constant) : Bool := c = unset

/-- Is the value a number? -/
def isNumber : Constant → Bool
  | .number _ => true
  | .text _ => false

/-- The value of what was typed: whatever reads as a number is one, blanks around it aside. -/
def ofTyped (s : String) : Constant :=
  match Json.parse? (Text.trim s) with
  | some (.number n) => .number n
  | _ => .text s

/-- The value itself: numbers as they are written, text without quotes. -/
def display : Constant → String
  | .number n => n.text
  | .text s => s

/-- The value as a literal of a program. -/
def literal : Constant → String
  | .number n => n.text
  | .text s => Json.quote s

end Constant

end LogicBoard
