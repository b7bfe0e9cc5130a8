/-
  LogicBoard.Template.Render
  ────────────────────────────────
  **FILLING TEMPLATES IN.**

  A template is filled in with values by name.  A name or a member that has
  no value may be asked for, but it can neither be shown nor tested nor
  filtered; a template that does so fails.

  This is the part of the language that the built-in templates and inline
  code are written in, and some more: places, choices, loops, comparisons,
  sums and a few filters.  A template may be written in all of it, so whoever
  uses templates does not rely on how they are filled in here but on any
  `Engine` that does so.
-/
import LogicBoard.Json.Printer
import LogicBoard.Template.Syntax
import LogicBoard.Text.Case

namespace LogicBoard

namespace Template

/-! ## §1. Values. -/

/-- A value that a template works with. -/
inductive Value where
  /-- What was asked for has no value. -/
  | missing
  | null
  | boolean (b : Bool)
  | number (n : Int)
  | string (s : String)
  | list (items : List Value)
  | record (members : List (String × Value))
deriving BEq, Inhabited

namespace Value

/-- A list of texts. -/
def ofTexts (texts : List String) : Value := .list (texts.map .string)

mutual

/-- A value inside another one as text. -/
def quoted : Value → String
  | missing => ""
  | null => "None"
  | boolean true => "True"
  | boolean false => "False"
  | number n => toString n
  | string s => Json.quote s
  | list items => "[" ++ ", ".intercalate (quotedItems items) ++ "]"
  | record members => "\x7b" ++ ", ".intercalate (quotedMembers members) ++ "\x7d"

/-- The items of a list as texts. -/
def quotedItems : List Value → List String
  | [] => []
  | v :: rest => v.quoted :: quotedItems rest

/-- The members of a record as texts. -/
def quotedMembers : List (String × Value) → List String
  | [] => []
  | (key, v) :: rest => (Json.quote key ++ ": " ++ v.quoted) :: quotedMembers rest

end

/-- A value as text; a missing value is empty. -/
def shown : Value → String
  | string s => s
  | v => v.quoted

/-- The text that stands in the place of a value. -/
def text? : Value → Option String
  | missing => none
  | v => some v.shown

/-- Does a value count as true? -/
def truth? : Value → Option Bool
  | missing => none
  | null => some false
  | boolean b => some b
  | number n => some (n ≠ 0)
  | string s => some (!s.isEmpty)
  | list items => some (!items.isEmpty)
  | record members => some (!members.isEmpty)

/-- The items of a list, or the characters of a text. -/
def row? : Value → Option (List Value)
  | list items => some items
  | string s => some (s.toList.map fun c => .string (String.singleton c))
  | _ => none

/-- The items that a loop runs over. -/
def items? : Value → Option (List Value)
  | record members => some (members.map fun m => .string m.1)
  | v => v.row?

/-- The member of a value. -/
def member? (key : String) : Value → Option Value
  | missing => none
  | record members => some ((members.lookup key).getD .missing)
  | _ => some .missing

/-- The item of a value; a negative position counts from the end. -/
def item? (i v : Value) : Option Value :=
  match i, v.row? with
  | .number n, some items =>
    let n := if n < 0 then n + items.length else n
    some (if n < 0 then .missing else items[n.toNat]?.getD .missing)
  | .string key, _ => v.member? key
  | _, _ => if v matches .missing then none else some .missing

end Value

/-! ## §2. Filters. -/

/-- A line with blanks in front of it, unless it is empty. -/
def withMargin (width : Nat) (line : List Char) : List Char :=
  if line.isEmpty then line else List.replicate width ' ' ++ line

/-- Puts blanks in front of all lines but the first and the empty ones. -/
def indent (width : Nat) (s : String) : String :=
  let lines := Text.splitLines (Token.dropLastBreak s.toList)
  let shifted := lines.take 1 ++ (lines.drop 1).map (withMargin width)
  String.ofList (Token.dropLastBreak (['\n'].intercalate shifted ++ ['\n']))

/-- Puts the items of a value together as texts. -/
def joined? (separator : String) (v : Value) : Option String := do
  return separator.intercalate (← (← v.items?).mapM Value.text?)

/-- Applies a filter. -/
def filter? (name : String) (v : Value) (arguments : List Value) : Option Value :=
  match v, name, arguments with
  | .missing, _, _ => none
  | .null, "join", _ => some (.string "")
  | v, "join", [] => (joined? "" v).map .string
  | v, "join", [separator] => do
    return .string (← joined? (← separator.text?) v)
  | v, "length", [] => v.items?.map fun items => .number items.length
  | v, "upper", [] => v.text?.map fun s => .string (Text.upper s)
  | v, "lower", [] => v.text?.map fun s => .string (Text.lower s)
  | v, "first", [] => v.items?.map fun items => items.head?.getD .missing
  | v, "last", [] => v.items?.map fun items => items.getLast?.getD .missing
  | v, "indent", [.number width] => v.text?.map fun s => .string (indent width.toNat s)
  | _, _, _ => none

/-! ## §3. Expressions. -/

/-- Values by name; an earlier entry hides a later one. -/
abbrev Scope := List (String × Value)

/-- Applies an operator to two values. -/
def combine? : Operator → Value → Value → Option Value
  | .equal, a, b => some (.boolean (a == b))
  | .different, a, b => some (.boolean (a != b))
  | .plus, .number a, .number b => some (.number (a + b))
  | .plus, .string a, .string b => some (.string (a ++ b))
  | .minus, .number a, .number b => some (.number (a - b))
  | .join, a, b => some (.string (a.shown ++ b.shown))
  | _, _, _ => none

mutual

/-- The value of an expression. -/
def Expr.eval? (scope : Scope) : Expr → Option Value
  | .name s => some ((scope.lookup s).getD .missing)
  | .string s => some (.string s)
  | .number n => some (.number n)
  | .boolean b => some (.boolean b)
  | .null => some .null
  | .member e key => do (← e.eval? scope).member? key
  | .item e i => do (← i.eval? scope).item? (← e.eval? scope)
  | .filter e name arguments => do
    filter? name (← e.eval? scope) (← evalAll? scope arguments)
  | .negate e => do
    match ← e.eval? scope with
    | .number n => some (.number (-n))
    | _ => none
  | .not e => do return .boolean (!(← (← e.eval? scope).truth?))
  | .binary .or a b => do
    let v ← a.eval? scope
    if ← v.truth? then return v else b.eval? scope
  | .binary .and a b => do
    let v ← a.eval? scope
    if ← v.truth? then b.eval? scope else return v
  | .binary op a b => do combine? op (← a.eval? scope) (← b.eval? scope)
  | .choice a condition b => do
    if ← (← condition.eval? scope).truth? then a.eval? scope else evalOther? scope b

/-- The value of the other side of a choice. -/
def evalOther? (scope : Scope) : Option Expr → Option Value
  | none => some .missing
  | some e => e.eval? scope

/-- The values of several expressions. -/
def evalAll? (scope : Scope) : List Expr → Option (List Value)
  | [] => some []
  | e :: rest => do return (← e.eval? scope) :: (← evalAll? scope rest)

end

/-! ## §4. Parts. -/

/-- What a loop tells about its round. -/
def round (i count : Nat) : Value :=
  .record [
    ("index", .number (i + 1)), ("index0", .number i), ("first", .boolean (i = 0)),
    ("last", .boolean (i + 1 = count)), ("length", .number count),
    ("revindex", .number ((count : Int) - i)), ("revindex0", .number ((count : Int) - i - 1))]

mutual

/-- The text of a part. -/
def Part.render? (scope : Scope) : Part → Option String
  | .text s => some s
  | .place e => do (← e.eval? scope).text?
  | .choice condition yes no => do
    if ← (← condition.eval? scope).truth? then renderAll? scope yes else renderAll? scope no
  | .loop name list body otherwise => do
    let items ← (← list.eval? scope).items?
    if items.isEmpty then renderAll? scope otherwise
    else
      let rounds ← items.zipIdx.mapM fun (item, i) =>
        renderAll? ((name, item) :: ("loop", round i items.length) :: scope) body
      return String.join rounds

/-- The text of several parts. -/
def renderAll? (scope : Scope) : List Part → Option String
  | [] => some ""
  | p :: rest => do return (← p.render? scope) ++ (← renderAll? scope rest)

end

/-- Fills a template in. -/
def render? (template : String) (scope : Scope) : Option String := do
  renderAll? scope (← ofText? template)

/-! ## §5. Engines. -/

/-- Whatever fills templates in: the text of a template for given values, or none if it fails. -/
class Engine where
  fill? : String → Scope → Option String

/-- The engine of this library. -/
instance : Engine := ⟨render?⟩

end Template

end LogicBoard
