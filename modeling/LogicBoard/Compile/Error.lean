/-
  LogicBoard.Compile.Error
  ────────────────────────────────
  **WHAT STOPS THE COMPILER, AND WHAT IT WARNS OF.**

  An error stops the compilation of a source and can be reported as a
  diagnostic with a code from E201 to E205, unless it is about the compiler
  itself.  Warnings, with the codes W201 and W202, are about chips that
  compile but probably do not do what was meant.
-/
import LogicBoard.Diagnostic.Basic
import LogicBoard.Record.Source

namespace LogicBoard

/-! ## §1. Errors. -/

/-- Why a type is not something to compile a program from. -/
inductive RootFault where
  | undefined
  | standard
deriving DecidableEq, Inhabited

/-- The words for it. -/
def RootFault.text : RootFault → String
  | undefined => "the type is not defined in the source"
  | standard => "standard chips have no content to compile"

/-- Why a source was not compiled. -/
inductive CompileError where
  /-- The source is not a source. -/
  | source (e : SourceError)
  /-- A wired chip of `owner` has a type that is not defined. -/
  | unknownType (type owner chip : Name)
  /-- Types that contain each other, in the order of their names. -/
  | cycle (types : List Name)
  /-- The type of the root chip cannot be compiled. -/
  | root (type : Name) (fault : RootFault)
  /-- A template is malformed or asks for what is not there. -/
  | template (name : String)
  /-- The file of a template could not be read. -/
  | templateFile (path : String) (reason : String)
  /-- A plan lists a chip that `owner` does not have: the compiler itself is at fault. -/
  | lostChip (chip owner : Name)
  /-- A type to be compiled is not defined any more: the compiler itself is at fault. -/
  | lostType (type : Name)
deriving DecidableEq

namespace CompileError

/-- The message of an error. -/
def message : CompileError → String
  | source e => e.message
  | unknownType type owner chip =>
    "unknown chip type `" ++ type.text ++ "` used by `" ++ chip.text ++ "` in `"
      ++ owner.text ++ "`"
  | cycle types => "chip types contain each other: " ++ " -> ".intercalate (types.map (·.text))
  | root type fault => "cannot compile `" ++ type.text ++ "`: " ++ fault.text
  | template name => "template `" ++ name ++ "` failed"
  | templateFile path reason => "failed to read template " ++ path ++ ": " ++ reason
  | lostChip chip owner =>
    "internal error: ordered chip `" ++ chip.text ++ "` is not in `" ++ owner.text ++ "`"
  | lostType type => "internal error: type `" ++ type.text ++ "` vanished during compilation"

/-- Is the compiler itself at fault? -/
def isInternal : CompileError → Bool
  | lostChip _ _ | lostType _ => true
  | _ => false

/-- The error as a diagnostic, unless the compiler itself is at fault. -/
def diagnostic? (e : CompileError) : Option Diagnostic :=
  match e with
  | source _ =>
    some ((Diagnostic.ofError 201 e.message .nowhere).withHelp
      "a chip source is `\x7b \"chip\": \x7b...\x7d, \"chipData\": \x7b...\x7d \x7d`")
  | unknownType type owner chip =>
    some ((Diagnostic.ofError 202 ("unknown chip type `" ++ type.text ++ "`")
      (.ofItem owner.text chip.text)).withHelp
      ("define `" ++ type.text ++ "` or remove `" ++ chip.text ++ "`"))
  | cycle types =>
    some ((Diagnostic.ofError 203 e.message (.ofType ((types.head?.map (·.text)).getD ""))).withNote
      "a chip type cannot contain itself, directly or through other types")
  | root type fault =>
    some ((Diagnostic.ofError 204 e.message (.ofType type.text)).withNote fault.text)
  | template _ => some ((Diagnostic.ofError 205 e.message .nowhere).withNote "malformed template")
  | templateFile path _ =>
    some ((Diagnostic.ofError 205 e.message .nowhere).withHelp
      ("check that " ++ path ++ " is readable"))
  | lostChip _ _ | lostType _ => none

end CompileError

/-! ## §2. Warnings. -/

/-- The warning of a chip without wires. -/
def Diagnostic.ofDeadChip (owner chip : Name) : Diagnostic :=
  (Diagnostic.ofWarning 201
    ("chip `" ++ chip.text ++ "` has no connections and was not compiled")
    (.ofItem owner.text chip.text)).withHelp "wire it up or remove it"

/-- The warning of chips that drive each other. -/
def Diagnostic.ofLoop (owner : Name) (chips : List Name) : Diagnostic :=
  (Diagnostic.ofWarning 202
    ("chips " ++ ", ".intercalate (chips.map (·.text)) ++ " feed back into each other")
    (.ofType owner.text)).withNote "values along the loop lag by one evaluation"

end LogicBoard
