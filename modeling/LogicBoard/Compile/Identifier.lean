/-
  LogicBoard.Compile.Identifier
  ────────────────────────────────
  **IDENTIFIERS OF PROGRAM TEXT.**

  Names of chips, ports and constants are folded to identifiers: every run
  of characters other than ASCII letters and digits becomes one underscore.
  The variable of a port or constant names its kind, its chip and itself.
-/
import LogicBoard.Design.Chip

namespace LogicBoard.Identifier

/-! ## §1. Folding. -/

/-- Folds a text; `inRun` tells whether an underscore already stands for what was just read. -/
def foldFrom (inRun : Bool) : List Char → List Char
  | [] => []
  | c :: rest =>
    if c.isAlphanum then c :: foldFrom false rest
    else if inRun then foldFrom true rest
    else '_' :: foldFrom true rest

/-- Folds a text to letters, digits and single underscores. -/
def fold (s : String) : String := String.ofList (foldFrom false s.toList)

/-! ## §2. Variables. -/

/-- The variable of a kind that belongs to a name of a chip. -/
def variableOf (kind chip name : String) : String :=
  kind ++ "_" ++ fold chip ++ "_" ++ fold name

/-- The variable of an input port. -/
def input (chip port : String) : String := variableOf "I" chip port

/-- The variable of an output port. -/
def output (chip port : String) : String := variableOf "O" chip port

/-- The variable of a constant. -/
def constant (chip name : String) : String := variableOf "C" chip name

/-- The variable that carries the value at a pin. -/
def ofPin (p : Pin) : String :=
  if p.output then output p.chip.text p.port else input p.chip.text p.port

/-! ## §3. Objects and classes. -/

/-- The member that holds the object of a composite chip. -/
def object (chip : Name) : String := "CHIP_" ++ fold chip.text

/-- Does a text begin with a digit? -/
def startsWithDigit (s : String) : Bool :=
  s.toList.head?.any Char.isDigit

/-- The class of a composite type.  No class begins with a digit. -/
def className (type : Name) : String :=
  let base := fold type.text
  (if startsWithDigit base then "_" else "") ++ base ++ "Chip"

/-! ## §4. Statements. -/

/-- The statement that copies the value along a wire. -/
def wireStatement (w : Wire) : String :=
  ofPin w.target ++ " = " ++ ofPin w.source ++ ";"

end LogicBoard.Identifier
