/-
  LogicBoard.Compile.Templates
  ────────────────────────────────
  **THE TEXT OF PROGRAMS.**

  The compiler works out what a program consists of; two templates say how it
  is written.  One writes the class of a composite type, the other one wraps
  all classes up into an expression whose value is an instance of the root
  type.  A user may replace either of them.  Filling a template in is the task
  of the template engine (`Template.Engine`).
-/
import LogicBoard.Compile.Error
import LogicBoard.Template.Render

namespace LogicBoard

/-! ## §1. What the templates are given. -/

/-- A constant of a chip with the literal it stands for. -/
structure ConstantBinding where
  name : String
  value : String
deriving DecidableEq

/-- The object of a composite chip. -/
structure ChipObject where
  /-- The chip. -/
  id : String
  /-- The member that holds the object. -/
  member : String
  /-- The class of the object. -/
  className : String
  /-- The type of the chip. -/
  type : String
  /-- The constants that the object is made with. -/
  constants : List String
deriving DecidableEq

/-- The statements of one chip, or those that take the inputs. -/
structure CodeBlock where
  type : String
  id : String
  description : String
  lines : List String
  /-- Do the statements come from inline code? -/
  standard : Bool
deriving DecidableEq

/-- What the class of a composite type consists of. -/
structure ClassContext where
  /-- Is there a comment above every block? -/
  debug : Bool
  type : String
  className : String
  /-- The variables of the inputs. -/
  inputs : List String
  /-- The variables of the outputs. -/
  outputs : List String
  /-- The variables of the constants. -/
  constants : List String
  /-- The variables that are declared. -/
  locals : List String
  /-- The constants of the chips. -/
  bindings : List ConstantBinding
  objects : List ChipObject
  blocks : List CodeBlock
deriving DecidableEq

/-- What a program consists of. -/
structure ProgramContext where
  type : String
  className : String
  /-- The literals that the instance is made with. -/
  constants : List String
  /-- The classes. -/
  blocks : List String
  /-- Is there a comment in front? -/
  debug : Bool
deriving DecidableEq

open Template (Value)

/-- The values by which a template knows a class. -/
def ClassContext.scope (c : ClassContext) : Template.Scope := [
  ("debug", .boolean c.debug), ("chip_type", .string c.type), ("chip_name", .string c.className),
  ("inputs", .ofTexts c.inputs), ("outputs", .ofTexts c.outputs),
  ("constants", .ofTexts c.constants), ("locals", .ofTexts c.locals),
  ("constant_vars", .list (c.bindings.map fun b =>
    .record [("name", .string b.name), ("value", .string b.value)])),
  ("custom_chips", .list (c.objects.map fun o =>
    .record [
      ("id", .string o.id), ("var", .string o.member), ("class", .string o.className),
      ("chip_type", .string o.type), ("constants", .ofTexts o.constants)])),
  ("blocks", .list (c.blocks.map fun b =>
    .record [
      ("chip_type", .string b.type), ("id", .string b.id), ("description", .string b.description),
      ("lines", .ofTexts b.lines), ("standard", .boolean b.standard)]))]

/-- The values by which a template knows a program. -/
def ProgramContext.scope (c : ProgramContext) : Template.Scope := [
  ("chip_type", .string c.type), ("chip_name", .string c.className),
  ("constants", .ofTexts c.constants), ("blocks", .ofTexts c.blocks), ("debug", .boolean c.debug)]

/-! ## §2. The built-in templates. -/

namespace Templates

/-- A place for a value. -/
def place (e : String) : String := "\x7b\x7b " ++ e ++ " \x7d\x7d"

/-- A tag. -/
def tag (s : String) : String := "\x7b% " ++ s ++ " %\x7d"

/-- A place for the items of a list with commas between them. -/
def places (e : String) : String := place (e ++ " | join(\", \")")

/-- The built-in template of a class. -/
def classText : String := "\n".intercalate [
  "const " ++ place "chip_name" ++ " = (function () \x7b",
  tag "for c in constant_vars",
  "  const " ++ place "c.name" ++ " = " ++ place "c.value" ++ ";",
  tag "endfor",
  "",
  "  return class \x7b",
  "    constructor(" ++ places "constants" ++ ") \x7b",
  tag "for c in constants",
  "      this." ++ place "c" ++ " = " ++ place "c" ++ ";",
  tag "endfor",
  tag "for chip in custom_chips",
  "      this." ++ place "chip.var" ++ " = new " ++ place "chip.class" ++ "("
    ++ places "chip.constants" ++ ");",
  tag "endfor",
  "    \x7d",
  "",
  "    run(" ++ places "inputs" ++ ") \x7b",
  tag "for c in constants",
  "      const " ++ place "c" ++ " = this." ++ place "c" ++ ";",
  tag "endfor",
  tag "for v in locals",
  "      let " ++ place "v" ++ " = false;",
  tag "endfor",
  tag "for block in blocks",
  "",
  tag "if debug",
  "      // " ++ place "block.description" ++ ": " ++ place "block.id" ++ " ("
    ++ place "block.chip_type" ++ ")",
  tag "endif",
  tag "for line in block.lines",
  "      " ++ place "line",
  tag "endfor",
  tag "endfor",
  "",
  "      return [" ++ places "outputs" ++ "];",
  "    \x7d",
  "  \x7d;",
  "\x7d)();"]

/-- The built-in template of a program. -/
def programText : String := "\n".intercalate [
  "(function () \x7b",
  tag "if debug",
  "  // " ++ place "chip_type" ++ " and " ++ place "blocks | length - 1" ++ " nested chip type(s)",
  tag "endif",
  tag "for block in blocks",
  "  " ++ place "block | indent(2)",
  "",
  tag "endfor",
  "  return new " ++ place "chip_name" ++ "(" ++ places "constants" ++ ");",
  "\x7d)()"]

end Templates

/-! ## §3. Use. -/

/-- The templates in use. -/
structure Templates where
  ofClass : String := Templates.classText
  ofProgram : String := Templates.programText
deriving DecidableEq

namespace Templates

/-- Fills a template in; a failure is reported under a name. -/
def fill [Template.Engine] (name template : String) (scope : Template.Scope) :
    Except CompileError String :=
  match Template.Engine.fill? template scope with
  | some s => .ok s
  | none => .error (.template name)

/-- The file name of the template of a class. -/
def className : String := "chip.jinja"

/-- The file name of the template of a program. -/
def programName : String := "program.jinja"

/-- Writes a class. -/
def writeClass [Template.Engine] (t : Templates) (c : ClassContext) : Except CompileError String :=
  fill className t.ofClass c.scope

/-- Writes a program. -/
def writeProgram [Template.Engine] (t : Templates) (c : ProgramContext) :
    Except CompileError String :=
  fill programName t.ofProgram c.scope

/-- Writes the inline code of a standard type. -/
def writeCode [Template.Engine] (type code : String) (given : List (String × String)) :
    Except CompileError String :=
  fill type code (given.map fun v => (v.1, .string v.2))

end Templates

end LogicBoard
