/-
  LogicBoard.Json.Value
  ────────────────────────────────
  **JSON DOCUMENTS.**

  A document keeps what its text says, object keys in the order they are
  written and repeated keys included.  Some well-formed spellings denote
  nothing: a number out of range, or a string with half a surrogate pair.
  They are `unreadable`, which only matters to a reader that looks at them.

  A document is *settled* when nothing in it is unreadable, nothing is
  nested too deeply, and every object has each key once, in key order.
-/
import LogicBoard.Json.Number
import LogicBoard.Table

namespace LogicBoard

/-- A JSON document. -/
inductive Json where
  | null
  | bool (b : Bool)
  | number (n : Json.Number)
  | string (s : String)
  | array (items : List Json)
  | object (entries : List (String × Json))
  | unreadable
deriving Inhabited

namespace Json

/-! ## §1. Views. -/

/-- A whole number as a document. -/
def int (n : Int) : Json := .number (.int n)

/-- The value at a key of an object. -/
def get? (key : String) : Json → Option Json
  | .object entries => entries.lookup key
  | _ => none

/-- The entries of an object. -/
def object? : Json → Option (List (String × Json))
  | .object entries => some entries
  | _ => none

/-- The items of an array. -/
def array? : Json → Option (List Json)
  | .array items => some items
  | _ => none

/-- The text of a string. -/
def string? : Json → Option String
  | .string s => some s
  | _ => none

/-- The truth value of a Boolean. -/
def bool? : Json → Option Bool
  | .bool b => some b
  | _ => none

/-- The number. -/
def number? : Json → Option Number
  | .number n => some n
  | _ => none

/-- The whole number, if it is written as one. -/
def int? : Json → Option Int
  | .number n => n.int?
  | _ => none

/-! ## §2. Settling. -/

/-- How many arrays and objects may stand inside each other. -/
def deepest : Nat := 127

/-- Settles a document in which at most `room` arrays and objects stand inside each other. -/
def settleIn? (room : Nat) : Json → Option Json
  | .unreadable => none
  | .array items =>
    match room with
    | 0 => none
    | room + 1 => (items.mapM (settleIn? room)).map .array
  | .object entries =>
    match room with
    | 0 => none
    | room + 1 => do
      let values ← (entries.map (·.2)).mapM (settleIn? room)
      return .object (Table.ofList ((entries.map (·.1)).zip values)).entries
  | j => some j

/-- Settles a document: of a repeated key the last value counts. -/
def settle? (j : Json) : Option Json := settleIn? deepest j

end Json

end LogicBoard
