/-
  LogicBoard.Diagnostic.Basic
  ────────────────────────────────
  **DIAGNOSTICS.**

  Problems of a design are values: a severity, a code such as `E101`, a
  message, a place in the design, and further notes and advice.  They are
  collected in a `Log` and shown as text or as JSON.
-/
import LogicBoard.Json.Printer
import LogicBoard.Json.Reader

namespace LogicBoard

/-! ## §1. Parts of a diagnostic. -/

/-- How serious a problem is. -/
inductive Severity where
  | note
  | warning
  | error
deriving DecidableEq, Inhabited

/-- The word for a severity. -/
def Severity.text : Severity → String
  | note => "note"
  | warning => "warning"
  | error => "error"

/-- The severity that a word means. -/
def Severity.ofText? : String → Option Severity
  | "note" => some note
  | "warning" => some warning
  | "error" => some error
  | _ => none

/-- The family of a code. -/
inductive Category where
  | error
  | warning
deriving DecidableEq, Inhabited

/-- The letter that codes of a family begin with. -/
def Category.letter : Category → String
  | error => "E"
  | warning => "W"

/-- The word for a family. -/
def Category.text : Category → String
  | error => "Error"
  | warning => "Warning"

/-- The family that a word means. -/
def Category.ofText? : String → Option Category
  | "Error" => some error
  | "Warning" => some warning
  | _ => none

/-- The code of a diagnostic. -/
structure Code where
  category : Category
  number : Nat
deriving DecidableEq, Inhabited

/-- A number with at least three digits. -/
def threeDigits (n : Nat) : String :=
  let ds := Nat.toDigits 10 n
  String.ofList (List.replicate (3 - ds.length) '0' ++ ds)

/-- The text of a code. -/
def Code.text (c : Code) : String :=
  c.category.letter ++ threeDigits c.number

/-- A place in a design: a chip type, an item inside it, both or neither. -/
structure Location where
  type : Option String
  item : Option String
deriving DecidableEq, Inhabited

namespace Location

/-- No place in particular. -/
def nowhere : Location := ⟨none, none⟩

/-- A whole chip type. -/
def ofType (type : String) : Location := ⟨some type, none⟩

/-- An item inside a chip type. -/
def ofItem (type item : String) : Location := ⟨some type, some item⟩

/-- Is it no place in particular? -/
def isNowhere (l : Location) : Bool := l.type.isNone && l.item.isNone

/-- The text of a place. -/
def text : Location → String
  | ⟨some type, some item⟩ => type ++ "::" ++ item
  | ⟨some type, none⟩ => type
  | ⟨none, some item⟩ => item
  | ⟨none, none⟩ => "<design>"

end Location

/-! ## §2. Diagnostics. -/

/-- A problem found in a design. -/
structure Diagnostic where
  severity : Severity
  code : Code
  message : String
  location : Location
  notes : List String
  help : List String
deriving DecidableEq, Inhabited

namespace Diagnostic

/-- An error without notes and advice. -/
def ofError (number : Nat) (message : String) (location : Location) : Diagnostic :=
  ⟨.error, ⟨.error, number⟩, message, location, [], []⟩

/-- A warning without notes and advice. -/
def ofWarning (number : Nat) (message : String) (location : Location) : Diagnostic :=
  ⟨.warning, ⟨.warning, number⟩, message, location, [], []⟩

/-- Adds a note. -/
def withNote (d : Diagnostic) (note : String) : Diagnostic :=
  { d with notes := d.notes ++ [note] }

/-- Adds advice. -/
def withHelp (d : Diagnostic) (help : String) : Diagnostic :=
  { d with help := d.help ++ [help] }

/-! ## §3. Text for a terminal. -/

/-- The colour of a severity, as a terminal's parameter. -/
def colour : Severity → String
  | .error => "31"
  | .warning => "33"
  | .note => "36"

/-- A text in the colour of a severity. -/
def paint (severity : Severity) (text : String) : String :=
  "\x1b[1;" ++ colour severity ++ "m" ++ text ++ "\x1b[0m"

/-- The lines for a terminal. -/
def terminalText (coloured : Bool) (d : Diagnostic) : String :=
  let label := d.severity.text ++ "[" ++ d.code.text ++ "]"
  let label := if coloured then paint d.severity label else label
  let place := if d.location.isNowhere then "" else "  --> " ++ d.location.text ++ "\n"
  label ++ ": " ++ d.message ++ "\n" ++ place
    ++ String.join (d.notes.map fun note => "   = note: " ++ note ++ "\n")
    ++ String.join (d.help.map fun help => "   = help: " ++ help ++ "\n")

/-! ## §4. JSON. -/

/-- A text or nothing. -/
def textOrNull (s : Option String) : Json := s.elim .null .string

/-- The document of a diagnostic. -/
def toJson (d : Diagnostic) : Json :=
  .object [
    ("severity", .string d.severity.text),
    ("code", .object [("category", .string d.code.category.text), ("number", .int d.code.number)]),
    ("message", .string d.message),
    ("location", .object [
      ("chip_type", textOrNull d.location.type), ("item", textOrNull d.location.item)]),
    ("notes", .array (d.notes.map .string)), ("help", .array (d.help.map .string))]

/-- The line of JSON for a diagnostic. -/
def jsonLine (d : Diagnostic) : String := d.toJson.compact ++ "\n"

/-- The texts in an array. -/
def texts? (j : Json) : Option (List String) := do
  (← j.array?).mapM Json.string?

/-- A text, if the document is one. -/
def optionalText? : Json → Option (Option String)
  | .null => some none
  | .string s => some (some s)
  | _ => none

/-- The diagnostic behind a document. -/
def ofJson? (j : Json) : Option Diagnostic := do
  let severity ← Severity.ofText? (← (← j.get? "severity").string?)
  let code ← j.get? "code"
  let category ← Category.ofText? (← (← code.get? "category").string?)
  let number ← (← code.get? "number").int?
  let message ← (← j.get? "message").string?
  let location ← j.get? "location"
  let type ← optionalText? (← location.get? "chip_type")
  let item ← optionalText? (← location.get? "item")
  let notes ← texts? (← j.get? "notes")
  let help ← texts? (← j.get? "help")
  if 0 ≤ number && number < 65536 then
    some ⟨severity, ⟨category, number.toNat⟩, message, ⟨type, item⟩, notes, help⟩
  else none

/-- The diagnostic on a line of JSON. -/
def ofJsonLine? (s : String) : Option Diagnostic :=
  (Json.parse? s).bind ofJson?

end Diagnostic

end LogicBoard
