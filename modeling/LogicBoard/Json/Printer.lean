/-
  LogicBoard.Json.Printer
  ────────────────────────────────
  **WRITING JSON TEXT.**

  Documents are written on one line without any space, or over several
  lines with two blanks per level.  Strings escape quotes, backslashes and
  control characters and keep everything else as it is.
-/
import LogicBoard.Json.Value

namespace LogicBoard.Json

/-! ## §1. Strings. -/

/-- A hexadecimal digit in lower case. -/
def hexDigit (n : Nat) : Char :=
  if n < 10 then Char.ofNat (n + '0'.toNat) else Char.ofNat (n - 10 + 'a'.toNat)

/-- The spelling of a character inside a string. -/
def escapeChar (c : Char) : List Char :=
  match c with
  | '"' => ['\\', '"']
  | '\\' => ['\\', '\\']
  | '\x08' => ['\\', 'b']
  | '\x0c' => ['\\', 'f']
  | '\n' => ['\\', 'n']
  | '\r' => ['\\', 'r']
  | '\t' => ['\\', 't']
  | c =>
    if c.toNat < 0x20 then
      ['\\', 'u', '0', '0', hexDigit (c.toNat / 16), hexDigit (c.toNat % 16)]
    else [c]

/-- A text in quotes. -/
def quote (s : String) : String :=
  "\"" ++ String.ofList (s.toList.flatMap escapeChar) ++ "\""

/-! ## §2. Documents. -/

/-- The text of a document that is neither array nor object; nothing unreadable is written. -/
def scalarText : Json → String
  | .bool true => "true"
  | .bool false => "false"
  | .number n => n.text
  | .string s => quote s
  | _ => "null"

mutual

/-- The text of a document on one line. -/
def compact : Json → String
  | .array items => "[" ++ String.intercalate "," (compactItems items) ++ "]"
  | .object entries => "\x7b" ++ String.intercalate "," (compactMembers entries) ++ "\x7d"
  | j => scalarText j

/-- The texts of items, each on one line. -/
def compactItems : List Json → List String
  | [] => []
  | item :: rest => compact item :: compactItems rest

/-- The texts of members, each on one line. -/
def compactMembers : List (String × Json) → List String
  | [] => []
  | (key, value) :: rest => (quote key ++ ":" ++ compact value) :: compactMembers rest

end

/-- The start of a line at a level. -/
def lineStart (level : Nat) : String :=
  "\n" ++ String.ofList (List.replicate (2 * level) ' ')

mutual

/-- The text of a document over several lines, inside `level` arrays and objects. -/
def prettyAt (level : Nat) : Json → String
  | .array [] => "[]"
  | .array (item :: rest) =>
    "[" ++ String.intercalate "," (prettyItems (level + 1) (item :: rest)) ++ lineStart level ++ "]"
  | .object [] => "\x7b\x7d"
  | .object (entry :: rest) =>
    "\x7b" ++ String.intercalate "," (prettyMembers (level + 1) (entry :: rest))
      ++ lineStart level ++ "\x7d"
  | j => scalarText j

/-- The texts of items, each on lines of its own. -/
def prettyItems (level : Nat) : List Json → List String
  | [] => []
  | item :: rest => (lineStart level ++ prettyAt level item) :: prettyItems level rest

/-- The texts of members, each on lines of its own. -/
def prettyMembers (level : Nat) : List (String × Json) → List String
  | [] => []
  | (key, value) :: rest =>
    (lineStart level ++ quote key ++ ": " ++ prettyAt level value) :: prettyMembers level rest

end

/-- The text of a document over several lines. -/
def pretty (j : Json) : String := prettyAt 0 j

end LogicBoard.Json
