/-
  LogicBoard.Record.Decode
  ────────────────────────────────
  **READING RECORDS.**

  A record is the document of a value of the design.  It is an object with
  one member per field, or an array of the fields in their fixed order, in
  which fields at the end may be missing.  Members of other names are
  passed over; a field that is given twice makes the record invalid.  Most
  fields have a default.  What a record spells in some case or other is
  brought to its one spelling on the way: names to lower case, rotations
  to 0 … 3, and of several chips with one name only the last one stays.
-/
import LogicBoard.Design.Chip

namespace LogicBoard.Record

/-! ## §1. Fields. -/

/-- Access to the fields of a record by name. -/
abbrev Fields := String → Option Json

/-- Is every field given at most once? -/
def fieldsOnce (names keys : List String) : Bool :=
  names.all fun name => keys.count name ≤ 1

/-- The fields of a record, given their names in order. -/
def fields? (names : List String) : Json → Option Fields
  | .object entries =>
    if fieldsOnce names (entries.map (·.1)) then some fun name => entries.lookup name else none
  | .array items =>
    if items.length ≤ names.length then some fun name => (names.zip items).lookup name else none
  | _ => none

/-- A field with a default. -/
def orElse {α : Type} (default : α) (read? : Json → Option α) : Option Json → Option α
  | none => some default
  | some j => read? j

/-! ## §2. Simple values. -/

/-- A whole number of 32 bits with sign. -/
def int32? (j : Json) : Option Int :=
  j.int?.filter fun n => -2147483648 ≤ n && n ≤ 2147483647

/-- A list of values. -/
def list? {α : Type} (read? : Json → Option α) : Json → Option (List α)
  | .array items => items.mapM read?
  | _ => none

/-- A table of values under keys; of a repeated key the last value counts. -/
def table? {α : Type} (read? : Json → Option α) : Json → Option (Table String α)
  | .object entries => (entries.mapM fun e => (read? e.2).map fun a => (e.1, a)).map .ofList
  | _ => none

/-- A text or nothing. -/
def textOrNull? : Json → Option (Option String)
  | .null => some none
  | .string s => some (some s)
  | _ => none

/-- A name, in any case. -/
def name? : Json → Option Name
  | .string s => some (.ofText s)
  | _ => none

/-- A constant. -/
def constant? : Json → Option Constant
  | .number n => some (.number n)
  | .string s => some (.text s)
  | _ => none

/-- A number of quarter turns. -/
def rotation? (j : Json) : Option Rotation :=
  (int32? j).map .ofTurns

/-- A point or an extent. -/
def vec? (j : Json) : Option Vec := do
  let field ← fields? ["x", "y"] j
  return ⟨← int32? (← field "x"), ← int32? (← field "y")⟩

/-! ## §3. The design. -/

/-- A pin.  The port is taken as it is spelled. -/
def pin? (j : Json) : Option Pin := do
  let field ← fields? ["chip", "output", "name"] j
  let chip ← name? (← field "chip")
  let output ← orElse false Json.bool? (field "output")
  let port ← orElse "" Json.string? (field "name")
  return ⟨chip, output, port⟩

/-- A wire. -/
def wire? (j : Json) : Option Wire := do
  let field ← fields? ["layer", "path", "source", "target", "customPath", "validPath"] j
  let layer ← orElse 0 int32? (field "layer")
  let path ← orElse [] (list? vec?) (field "path")
  let source ← pin? (← field "source")
  let target ← pin? (← field "target")
  let drawn ← orElse false Json.bool? (field "customPath")
  let valid ← orElse true Json.bool? (field "validPath")
  return ⟨layer, path, source, target, drawn, valid⟩

/-- A chip. -/
def chip? (j : Json) : Option Chip := do
  let field ← fields? ["id", "name", "type", "pos", "constants", "rotation"] j
  let id ← name? (← field "id")
  let label ← orElse "" Json.string? (field "name")
  let type ← name? (← field "type")
  let pos ← orElse .one vec? (field "pos")
  let constants ← orElse .empty (table? constant?) (field "constants")
  let rotation ← orElse .r0 rotation? (field "rotation")
  return ⟨id, label, type, pos, constants, rotation⟩

/-- A content.  The record has no size of its own. -/
def content? (j : Json) : Option Content := do
  let field ← fields? ["chips", "connections"] j
  let chips ← orElse [] (list? chip?) (field "chips")
  let wires ← orElse [] (list? wire?) (field "connections")
  return .ofChips .one chips wires

/-- A chip type.  Its content gets the size of the type. -/
def chipType? (j : Json) : Option ChipType := do
  let field ← fields?
    ["size", "inputs", "outputs", "type", "constants", "content", "description", "code"] j
  let size ← orElse .one vec? (field "size")
  let inputs ← orElse [] (list? Json.string?) (field "inputs")
  let outputs ← orElse [] (list? Json.string?) (field "outputs")
  let kind ← orElse ChipType.customKind Json.string? (field "type")
  let constants ← orElse [] (list? Json.string?) (field "constants")
  let content ← orElse (.ofSize .one) content? (field "content")
  let description ← orElse "" Json.string? (field "description")
  let code ← orElse none textOrNull? (field "code")
  return ⟨size, inputs, outputs, constants, { content with size }, code, kind, description⟩

/-- Chip types by name; of several spellings of one name the last one counts. -/
def typeTable? : Json → Option TypeTable
  | .object entries =>
    (entries.mapM fun e => (chipType? e.2).map fun t => (Name.ofText e.1, t)).map .ofList
  | _ => none

end LogicBoard.Record
