/-
  LogicBoard.Record.Source
  ────────────────────────────────
  **SOURCE DOCUMENTS.**

  A source is what a program is compiled from: the root chip and the
  definitions of the types it may reach.  Its document is checked for its
  shape first, so that a missing or misplaced part is reported by its path,
  and converted afterwards.
-/
import LogicBoard.Record.Decode
import LogicBoard.Record.Encode

namespace LogicBoard

/-- A root chip and the definitions of types. -/
structure Source where
  chip : Chip
  types : TypeTable
deriving DecidableEq

/-! ## §1. Errors. -/

/-- What can be wrong with a part of a source document. -/
inductive ShapeProblem where
  | missing
  | noObject
  | noArray
  | noString
  | noBoolean
  | noSize
deriving DecidableEq

/-- The words for a problem. -/
def ShapeProblem.text : ShapeProblem → String
  | missing => "is missing"
  | noObject => "must be an object"
  | noArray => "must be an array"
  | noString => "must be a string"
  | noBoolean => "must be a boolean"
  | noSize => "must be an integer from 1 to 1000"

/-- Why a text is no source. -/
inductive SourceError where
  /-- The text is not a JSON document. -/
  | notJson
  /-- A record inside the document is invalid. -/
  | badRecord
  /-- The part at the path is not as it should be. -/
  | shape (path : String) (problem : ShapeProblem)
deriving DecidableEq

/-- The message of an error. -/
def SourceError.message : SourceError → String
  | notJson => "chip source is not valid JSON: unexpected text"
  | badRecord => "chip source is not valid JSON: invalid record"
  | shape path problem => "chip source is malformed: " ++ path ++ " " ++ problem.text

namespace Source

/-! ## §2. The shape of a document. -/

/-- The result of a check. -/
abbrev Check := Except SourceError

/-- Reports a problem at a path. -/
def fault {α : Type} (path : String) (problem : ShapeProblem) : Check α :=
  .error (.shape path problem)

/-- The member of an object. -/
def member (j : Json) (path key : String) : Check Json :=
  match j.get? key with
  | some value => .ok value
  | none => fault (path ++ "." ++ key) .missing

/-- A part that has to be an object. -/
def needObject (j : Json) (path : String) : Check (List (String × Json)) :=
  match j.object? with
  | some entries => .ok entries
  | none => fault path .noObject

/-- A member that has to be an object. -/
def objectMember (j : Json) (path key : String) : Check (List (String × Json)) := do
  needObject (← member j path key) (path ++ "." ++ key)

/-- A member that has to be an array. -/
def arrayMember (j : Json) (path key : String) : Check (List Json) := do
  match (← member j path key).array? with
  | some items => .ok items
  | none => fault (path ++ "." ++ key) .noArray

/-- A part that has to be a string. -/
def needString (j : Json) (path : String) : Check Unit :=
  match j.string? with
  | some _ => .ok ()
  | none => fault path .noString

/-- A member that has to be a string. -/
def stringMember (j : Json) (path key : String) : Check Unit := do
  needString (← member j path key) (path ++ "." ++ key)

/-- The path of an item. -/
def itemPath (path : String) (i : Nat) : String :=
  path ++ "[" ++ toString i ++ "]"

/-- A member that has to be an array of strings. -/
def stringsMember (j : Json) (path key : String) : Check Unit := do
  let items ← arrayMember j path key
  items.zipIdx.forM fun item => needString item.1 (itemPath (path ++ "." ++ key) item.2)

/-- An end of a wire: an object with a chip, a port and a side. -/
def checkPin (j : Json) (path : String) : Check Unit := do
  let _ ← needObject j path
  stringMember j path "chip"
  stringMember j path "name"
  match (← member j path "output").bool? with
  | some _ => .ok ()
  | none => fault (path ++ ".output") .noBoolean

/-- A component of a size. -/
def checkExtent (j : Json) (path key : String) (most : Int) : Check Unit := do
  match (← member j path key).int? with
  | some n => if 1 ≤ n && n ≤ most then .ok () else fault (path ++ "." ++ key) .noSize
  | none => fault (path ++ "." ++ key) .noSize

/-- A size within the admissible ones. -/
def checkSize (j : Json) (path : String) : Check Unit := do
  let _ ← needObject j path
  checkExtent j path "x" largestSize.x
  checkExtent j path "y" largestSize.y

/-- A wire: both its ends. -/
def checkWire (j : Json) (path : String) : Check Unit := do
  checkPin (← member j path "source") (path ++ ".source")
  checkPin (← member j path "target") (path ++ ".target")

/-- A content: chips and wires. -/
def checkContent (j : Json) (path : String) : Check Unit := do
  let _ ← needObject j path
  let _ ← arrayMember j path "chips"
  let wires ← arrayMember j path "connections"
  wires.zipIdx.forM fun wire => checkWire wire.1 (itemPath (path ++ ".connections") wire.2)

/-- A chip type. -/
def checkType (j : Json) (path : String) : Check Unit := do
  let _ ← needObject j path
  match j.get? "size" with
  | some size => checkSize size (path ++ ".size")
  | none => .ok ()
  ["inputs", "outputs", "constants"].forM fun key => stringsMember j path key
  checkContent (← member j path "content") (path ++ ".content")

/-- The shape of a whole document. -/
def checkDocument (j : Json) : Check Unit := do
  let root := "<root>"
  let _ ← needObject j root
  let chip ← member j root "chip"
  let _ ← needObject chip "chip"
  ["id", "name", "type"].forM fun key => stringMember chip "chip" key
  let _ ← objectMember chip "chip" "constants"
  let types ← objectMember j root "chipData"
  types.forM fun entry => checkType entry.2 ("chipData." ++ entry.1)

/-! ## §3. Conversion. -/

/-- The source behind a document of the right shape. -/
def ofRecord? (j : Json) : Option Source := do
  let field ← Record.fields? ["chip", "chipData"] j
  return ⟨← Record.chip? (← field "chip"), ← Record.typeTable? (← field "chipData")⟩

/-- Checks and converts a settled document. -/
def ofJson (j : Json) : Check Source := do
  checkDocument j
  match ofRecord? j with
  | some source => .ok source
  | none => .error .badRecord

/-- Reads a text. -/
def ofText (s : String) : Check Source :=
  match (Json.parse? s).bind Json.settle? with
  | some j => ofJson j
  | none => .error .notJson

/-- The document of a source. -/
def toJson (s : Source) : Json :=
  .object [("chip", Record.ofChip s.chip), ("chipData", Record.ofTypeTable s.types)]

/-- The text of a source, over several lines. -/
def text (s : Source) : String := s.toJson.pretty

end Source

end LogicBoard
