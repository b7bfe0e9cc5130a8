/-
  LogicBoard.Template.Syntax
  ────────────────────────────────
  **THE GRAMMAR OF TEMPLATES.**

  A template is a list of parts: text, places for values, choices and loops.
  The values of places and conditions are given by expressions.
-/
import LogicBoard.Template.Token

namespace LogicBoard

namespace Template

/-! ## §1. Syntax trees. -/

/-- Operators between two expressions. -/
inductive Operator where
  | or
  | and
  | equal
  | different
  | plus
  | minus
  /-- Puts two texts together. -/
  | join
deriving DecidableEq, Inhabited

/-- An expression. -/
inductive Expr where
  | name (s : String)
  | string (s : String)
  | number (n : Nat)
  | boolean (b : Bool)
  | null
  | member (e : Expr) (key : String)
  | item (e i : Expr)
  | filter (e : Expr) (name : String) (arguments : List Expr)
  | negate (e : Expr)
  | not (e : Expr)
  | binary (op : Operator) (a b : Expr)
  /-- The first expression if the condition holds, else the other one. -/
  | choice (a condition : Expr) (b : Option Expr)
deriving Inhabited

/-- A part of a template. -/
inductive Part where
  | text (s : String)
  | place (e : Expr)
  | choice (condition : Expr) (yes no : List Part)
  /-- Repeats the body for the items of a list; the other parts stand in for an empty list. -/
  | loop (name : String) (items : Expr) (body otherwise : List Part)
deriving Inhabited

/-! ## §2. Expressions. -/

/-- How tightly an operator binds, and which one a token stands for.  Negation binds at level 3,
between `and` and the comparisons. -/
def operator? : Token → Option (Nat × Operator)
  | .word "or" => some (1, .or)
  | .word "and" => some (2, .and)
  | .symbol "==" => some (4, .equal)
  | .symbol "!=" => some (4, .different)
  | .symbol "+" => some (5, .plus)
  | .symbol "-" => some (5, .minus)
  | .symbol "~" => some (6, .join)
  | _ => none

/-- The expression of a word. -/
def Expr.ofWord : String → Expr
  | "true" | "True" => .boolean true
  | "false" | "False" => .boolean false
  | "none" | "None" => .null
  | s => .name s

/-- What is left behind a token that has to be there. -/
def expect? (t : Token) : List Token → Option (List Token)
  | u :: rest => if u = t then some rest else none
  | [] => none

mutual

/-- Reads an expression; every call uses one unit of fuel. -/
def expr? : Nat → List Token → Option (Expr × List Token)
  | 0, _ => none
  | fuel + 1, ts => do
    let (e, rest) ← level? fuel 1 ts
    conditional? fuel e rest

/-- Reads the conditions behind an expression. -/
def conditional? : Nat → Expr → List Token → Option (Expr × List Token)
  | 0, _, _ => none
  | fuel + 1, e, .word "if" :: ts => do
    let (condition, rest) ← level? fuel 1 ts
    match rest with
    | .word "else" :: rest =>
      let (other, rest) ← expr? fuel rest
      conditional? fuel (.choice e condition (some other)) rest
    | rest => conditional? fuel (.choice e condition none) rest
  | _ + 1, e, ts => some (e, ts)

/-- Reads an expression of operators that bind at least as tightly as a level. -/
def level? : Nat → Nat → List Token → Option (Expr × List Token)
  | 0, _, _ => none
  | fuel + 1, level, ts =>
    if level = 3 then
      match ts with
      | .word "not" :: rest => (level? fuel 3 rest).map fun r => (.not r.1, r.2)
      | ts => level? fuel 4 ts
    else if level ≤ 6 then do
      let (e, rest) ← level? fuel (level + 1) ts
      further? fuel level e rest
    else operand? fuel ts

/-- Reads the further operands at a level. -/
def further? : Nat → Nat → Expr → List Token → Option (Expr × List Token)
  | 0, _, _, _ => none
  | _ + 1, _, e, [] => some (e, [])
  | fuel + 1, level, e, t :: ts =>
    match operator? t with
    | some (l, op) =>
      if l = level then do
        let (f, rest) ← level? fuel (level + 1) ts
        further? fuel level (.binary op e f) rest
      else some (e, t :: ts)
    | none => some (e, t :: ts)

/-- Reads an operand with what is attached to it. -/
def operand? : Nat → List Token → Option (Expr × List Token)
  | 0, _ => none
  | fuel + 1, ts => do
    let (e, rest) ← signed? fuel ts
    let (e, rest) ← parts? fuel e rest
    filters? fuel e rest

/-- Reads an operand with its sign. -/
def signed? : Nat → List Token → Option (Expr × List Token)
  | 0, _ => none
  | fuel + 1, .symbol "-" :: ts => (signed? fuel ts).map fun r => (.negate r.1, r.2)
  | fuel + 1, ts => primary? fuel ts

/-- Reads a name, a constant or an expression in parentheses. -/
def primary? : Nat → List Token → Option (Expr × List Token)
  | 0, _ => none
  | _ + 1, .word s :: ts => some (.ofWord s, ts)
  | _ + 1, .string s :: ts => some (.string s, ts)
  | _ + 1, .number n :: ts => some (.number n, ts)
  | fuel + 1, .symbol "(" :: ts => do
    let (e, rest) ← expr? fuel ts
    return (e, ← expect? (.symbol ")") rest)
  | _ + 1, _ => none

/-- Reads the members and items asked for behind an operand. -/
def parts? : Nat → Expr → List Token → Option (Expr × List Token)
  | 0, _, _ => none
  | fuel + 1, e, .symbol "." :: .word key :: ts => parts? fuel (.member e key) ts
  | fuel + 1, e, .symbol "[" :: ts => do
    let (i, rest) ← expr? fuel ts
    parts? fuel (.item e i) (← expect? (.symbol "]") rest)
  | _ + 1, e, ts => some (e, ts)

/-- Reads the filters behind an operand. -/
def filters? : Nat → Expr → List Token → Option (Expr × List Token)
  | 0, _, _ => none
  | fuel + 1, e, .symbol "|" :: .word name :: .symbol "(" :: ts => do
    let (arguments, rest) ← arguments? fuel ts
    filters? fuel (.filter e name arguments) rest
  | fuel + 1, e, .symbol "|" :: .word name :: ts => filters? fuel (.filter e name []) ts
  | _ + 1, _, .symbol "|" :: _ => none
  | _ + 1, e, ts => some (e, ts)

/-- Reads the arguments of a filter up to the closing parenthesis. -/
def arguments? : Nat → List Token → Option (List Expr × List Token)
  | 0, _ => none
  | _ + 1, .symbol ")" :: ts => some ([], ts)
  | fuel + 1, ts => do
    let (e, rest) ← expr? fuel ts
    match rest with
    | .symbol ")" :: rest => return ([e], rest)
    | .symbol "," :: rest =>
      let (es, rest) ← arguments? fuel rest
      return (e :: es, rest)
    | _ => none

end

/-! ## §3. Parts. -/

/-- The words of tags that end a list of parts. -/
def isEndWord (s : String) : Bool := ["elif", "else", "endif", "endfor"].contains s

/-- What is left behind a tag of one word that has to be there. -/
def endTag? (word : String) : List Token → Option (List Token)
  | .openTag :: .word s :: .closeTag :: rest => if s = word then some rest else none
  | _ => none

mutual

/-- Reads parts up to the end of the template or a tag that ends them; every call uses one unit of
fuel. -/
def parse? : Nat → List Token → Option (List Part × List Token)
  | 0, _ => none
  | _ + 1, [] => some ([], [])
  | fuel + 1, .text s :: ts => do
    let (parts, rest) ← parse? fuel ts
    return (.text s :: parts, rest)
  | fuel + 1, .openPlace :: ts => do
    let (e, rest) ← expr? fuel ts
    let (parts, rest) ← parse? fuel (← expect? .closePlace rest)
    return (.place e :: parts, rest)
  | fuel + 1, .openTag :: .word "if" :: ts => do
    let (part, rest) ← choice? fuel ts
    let (parts, rest) ← parse? fuel rest
    return (part :: parts, rest)
  | fuel + 1, .openTag :: .word "for" :: .word s :: .word "in" :: ts => do
    let (items, rest) ← level? fuel 1 ts
    let (body, rest) ← parse? fuel (← expect? .closeTag rest)
    let (otherwise, rest) ← match endTag? "else" rest with
      | some rest => parse? fuel rest
      | none => some ([], rest)
    let (parts, rest) ← parse? fuel (← endTag? "endfor" rest)
    return (.loop s items body otherwise :: parts, rest)
  | _ + 1, .openTag :: .word s :: ts =>
    if isEndWord s then some ([], .openTag :: .word s :: ts) else none
  | _ + 1, _ => none

/-- Reads the rest of a choice, behind its first word. -/
def choice? : Nat → List Token → Option (Part × List Token)
  | 0, _ => none
  | fuel + 1, ts => do
    let (condition, rest) ← expr? fuel ts
    let (yes, rest) ← parse? fuel (← expect? .closeTag rest)
    match rest with
    | .openTag :: .word "elif" :: rest =>
      let (other, rest) ← choice? fuel rest
      return (.choice condition yes [other], rest)
    | rest =>
      let (no, rest) ← match endTag? "else" rest with
        | some rest => parse? fuel rest
        | none => some ([], rest)
      return (.choice condition yes no, ← endTag? "endif" rest)

end

/-- The parts of a template. -/
def ofText? (s : String) : Option (List Part) := do
  let ts ← tokens? s
  match ← parse? (16 * ts.length + 16) ts with
  | (parts, []) => some parts
  | _ => none

end Template

end LogicBoard
