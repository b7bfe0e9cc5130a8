/-
  LogicBoard.Command.Basic
  ────────────────────────────────
  **COMMANDS.**

  What can be asked for on the command line, and why a command fails.  A
  command works on a design directory, which holds an optional configuration
  and the records of the custom types.
-/
import LogicBoard.Compile.Error
import LogicBoard.Config.Settings
import LogicBoard.Design.Constant
import LogicBoard.Store.Basic

namespace LogicBoard

/-! ## §1. Options of every command. -/

/-- When reports are coloured. -/
inductive Colouring where
  /-- Whenever they go to a terminal. -/
  | auto
  | always
  | never
deriving DecidableEq, Inhabited

/-- The colouring with a name. -/
def Colouring.ofText? : String → Option Colouring
  | "auto" => some .auto
  | "always" => some .always
  | "never" => some .never
  | _ => none

/-- How diagnostics are printed. -/
inductive ReportFormat where
  | text
  /-- One document per line. -/
  | json
deriving DecidableEq, Inhabited

/-- The format with a name. -/
def ReportFormat.ofText? : String → Option ReportFormat
  | "text" => some .text
  | "json" => some .json
  | _ => none

/-- The options that every command takes. -/
structure CommandOptions where
  /-- Is nothing printed but answers and errors? -/
  quiet : Bool := false
  /-- Are the steps of a command printed? -/
  verbose : Bool := false
  colouring : Colouring := .auto
  /-- The configuration or the directory that holds it. -/
  config : Option String := none
  /-- The directory of the records. -/
  store : Option String := none
  format : ReportFormat := .text
deriving DecidableEq, Inhabited

/-! ## §2. Commands. -/

/-- What a program is compiled from. -/
inductive CompileInput where
  /-- A file that holds a source. -/
  | file (path : String)
  /-- A custom type of the design. -/
  | stored (type : String)
deriving DecidableEq, Inhabited

/-- A command with its operands. -/
inductive Command where
  /-- Lists all types. -/
  | types
  /-- Defines a custom type. -/
  | new (name : String)
  /-- Resizes a custom type. -/
  | resize (name : String) (size : Vec)
  /-- Names a port of a custom type. -/
  | port (name : String) (output : Bool) (position : Nat) (port : String)
  /-- Adds a constant slot to a custom type. -/
  | addConstant (name constant : String)
  /-- Removes a constant slot of a custom type. -/
  | removeConstant (name constant : String)
  /-- Places a chip, turned and with its constants filled by `NAME=VALUE` texts. -/
  | place (owner type id : String) (pos : Vec) (turns : Int) (constants : List String)
  /-- Connects two pins. -/
  | wire (owner a b : String) (layer : Int)
  /-- Routes all wires of a custom type that were not drawn by hand. -/
  | reroute (name : String)
  /-- Reports what is wrong with a custom type. -/
  | check (name : String)
  /-- Compiles a program and prints it or writes it to a file. -/
  | compile (input : CompileInput) (output : Option String) (debug : Bool)
deriving DecidableEq

/-! ## §3. Failures. -/

/-- Why a command failed. -/
inductive CommandError where
  /-- A custom type cannot have the name of a standard one. -/
  | standardName (name : Name)
  /-- Standard types cannot be edited. -/
  | standardType (name : Name)
  | noCustomType (name : Name)
  | noType (name : Name)
  /-- The position does not exist, or another port has the name. -/
  | portRefused (name : Name) (output : Bool) (position : Nat) (port : String)
  /-- The text does not fill a constant. -/
  | notAssignment (text : String)
  | noConstant (type : Name) (constant : String)
  /-- A content does not accept a chip. -/
  | chipRefused (owner id : Name)
  /-- The text is not that of a pin. -/
  | notPin (text : String)
  /-- Two pins cannot be connected. -/
  | wireRefused (a b : Pin)
  /-- A board without an edge cannot be routed. -/
  | noEdge
  | config (e : ConfigError)
  /-- The configuration cannot be read. -/
  | configFile (reason : DiskError)
  | store (e : StoreError)
  | compile (e : CompileError)
  | readFile (path : String) (reason : DiskError)
  | writeFile (path : String) (reason : DiskError)
deriving DecidableEq

/-- The name of a side of a chip. -/
def sideName (output : Bool) : String := if output then "output" else "input"

/-- The message of a failure. -/
def CommandError.message : CommandError → String
  | standardName name => "`" ++ name.text ++ "` is a standard chip type"
  | standardType name => "`" ++ name.text ++ "` is a standard chip and cannot be edited"
  | noCustomType name =>
    "no custom chip type named `" ++ name.text ++ "`; create it with `chipgrid new " ++ name.text
      ++ "`"
  | noType name => "no chip type named `" ++ name.text ++ "`"
  | portRefused name output position port =>
    "cannot name " ++ sideName output ++ " " ++ toString position ++ " of `" ++ name.text ++ "` `"
      ++ ChipType.spelled port ++ "`: out of range or already used"
  | notAssignment text => "constant `" ++ text ++ "` is not NAME=VALUE"
  | noConstant type constant => "`" ++ type.text ++ "` has no constant `" ++ constant ++ "`"
  | chipRefused owner id =>
    "cannot place `" ++ id.text ++ "` in `" ++ owner.text
      ++ "`: the id is taken or reserved, or the chip is too large"
  | notPin text => Pin.refusal text
  | wireRefused a b =>
    "cannot connect " ++ a.text ++ " and " ++ b.text
      ++ ": unknown pin, pin already driven, or incompatible directions"
  | noEdge => "the board has no edge"
  | config e => e.message
  | configFile reason => "failed to read configuration: " ++ reason.text
  | store e => e.message
  | compile e => e.message
  | readFile path reason => "failed to read " ++ path ++ ": " ++ reason.text
  | writeFile path reason => "failed to write " ++ path ++ ": " ++ reason.text

/-- The diagnostic of a failure, if it has one. -/
def CommandError.diagnostic? : CommandError → Option Diagnostic
  | compile e => e.diagnostic?
  | _ => none

/-- The exit code after a failure: faults of the program itself have a code of their own. -/
def CommandError.exitCode : CommandError → Nat
  | compile e => if e.isInternal then 2 else 1
  | _ => 1

end LogicBoard
