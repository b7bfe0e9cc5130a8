/-
  LogicBoard.Config.Toml
  ────────────────────────────────
  **READING TOML.**

  Configuration files are TOML 1.0.  A text is read in two steps: into its
  lines, each of which opens a table or sets a key, and from these into one
  table.  The second step enforces that nothing is defined twice: a table is
  opened once, a key is set once, and dotted keys only extend tables that
  dotted keys made.

  Settings are texts, whole numbers and truth values.  Fractions and dates
  are recognised, but what they denote is not kept.
-/
import LogicBoard.Text.Digits

namespace LogicBoard

/-- A TOML value. -/
inductive Toml where
  | string (s : String)
  | integer (n : Int)
  | boolean (b : Bool)
  /-- A number with a fraction. -/
  | fraction
  /-- A date, a time or both. -/
  | moment
  | array (items : List Toml)
  | table (entries : List (String × Toml))
deriving Inhabited

namespace Toml

/-! ## §1. Characters. -/

/-- Blanks within a line. -/
def isBlank (c : Char) : Bool := c = ' ' || c = '\t'

/-- Control characters that may not stand in a comment or a string. -/
def isForbidden (c : Char) : Bool := (c.toNat < 0x20 && c ≠ '\t') || c.toNat = 0x7F

/-- Characters of keys without quotes. -/
def isKeyChar (c : Char) : Bool := c.isAlphanum || c = '_' || c = '-'

/-- Drops blanks. -/
def skipBlanks (cs : List Char) : List Char := cs.dropWhile isBlank

/-- Drops a line break, if the text begins with one. -/
def lineBreak? : List Char → Option (List Char)
  | '\n' :: rest => some rest
  | '\r' :: '\n' :: rest => some rest
  | _ => none

/-- Drops a comment up to the end of its line; `none` if a character is forbidden. -/
def skipComment? : List Char → Option (List Char)
  | [] => some []
  | '\n' :: rest => some ('\n' :: rest)
  | '\r' :: '\n' :: rest => some ('\r' :: '\n' :: rest)
  | c :: rest => if isForbidden c then none else skipComment? rest

/-- Drops blanks and a comment, which only the end of the line may follow. -/
def endLine? (cs : List Char) : Option (List Char) := do
  let cs ← match skipBlanks cs with
    | '#' :: rest => skipComment? rest
    | rest => some rest
  if cs.isEmpty then some [] else lineBreak? cs

/-- Drops blanks, comments and line breaks. -/
def skipFiller? : Nat → List Char → Option (List Char)
  | 0, _ => none
  | fuel + 1, cs =>
    match skipBlanks cs with
    | '#' :: rest => do skipFiller? fuel (← skipComment? rest)
    | rest =>
      match lineBreak? rest with
      | some rest => skipFiller? fuel rest
      | none => some rest

/-! ## §2. Strings. -/

/-- The character with the code that hexadecimal digits spell. -/
def codedChar? (digits : List Char) : Option Char := do
  let n ← digits.foldlM (fun n c => (Text.hexValue? c).map (n * 16 + ·)) 0
  if n < 0xD800 || (0xDFFF < n && n < 0x110000) then some (Char.ofNat n) else none

/-- The character that an escape stands for, and what follows it. -/
def escape? : List Char → Option (Char × List Char)
  | 'b' :: rest => some ('\x08', rest)
  | 't' :: rest => some ('\t', rest)
  | 'n' :: rest => some ('\n', rest)
  | 'f' :: rest => some ('\x0c', rest)
  | 'r' :: rest => some ('\r', rest)
  | '"' :: rest => some ('"', rest)
  | '\\' :: rest => some ('\\', rest)
  | 'u' :: rest =>
    if rest.length < 4 then none else (codedChar? (rest.take 4)).map fun c => (c, rest.drop 4)
  | 'U' :: rest =>
    if rest.length < 8 then none else (codedChar? (rest.take 8)).map fun c => (c, rest.drop 8)
  | _ => none

/-- The rest of a string with escapes on one line, behind its opening quote. -/
def basicString? : Nat → List Char → Option (List Char × List Char)
  | 0, _ => none
  | _ + 1, [] => none
  | _ + 1, '"' :: rest => some ([], rest)
  | fuel + 1, '\\' :: rest => do
    let (c, rest) ← escape? rest
    let (cs, rest) ← basicString? fuel rest
    return (c :: cs, rest)
  | fuel + 1, c :: rest =>
    if isForbidden c then none
    else do
      let (cs, rest) ← basicString? fuel rest
      return (c :: cs, rest)

/-- The rest of a string without escapes on one line, behind its opening quote. -/
def literalString? : List Char → Option (List Char × List Char)
  | [] => none
  | '\'' :: rest => some ([], rest)
  | c :: rest =>
    if isForbidden c then none
    else do
      let (cs, rest) ← literalString? rest
      return (c :: cs, rest)

/-- The end of a string over several lines: three quotes, before which two more may belong to the
text. -/
def closing? (quote : Char) (cs : List Char) : Option (List Char × List Char) :=
  let quotes := (cs.takeWhile (· = quote)).length
  if quotes < 3 then none
  else if quotes ≤ 5 then some (List.replicate (quotes - 3) quote, cs.drop quotes)
  else none

/-- Drops the white space behind a backslash at the end of a line. -/
def skipFold? (cs : List Char) : Option (List Char) :=
  match lineBreak? (skipBlanks cs) with
  | some rest => some (rest.dropWhile fun c => isBlank c || c = '\n' || c = '\r')
  | none => none

/-- The rest of a string with escapes over several lines. -/
def basicText? : Nat → List Char → Option (List Char × List Char)
  | 0, _ => none
  | _ + 1, [] => none
  | fuel + 1, '"' :: rest =>
    if ['"', '"'].isPrefixOf rest then closing? '"' ('"' :: rest)
    else do
      let (cs, rest) ← basicText? fuel rest
      return ('"' :: cs, rest)
  | fuel + 1, '\\' :: rest =>
    match skipFold? rest with
    | some rest => basicText? fuel rest
    | none => do
      let (c, rest) ← escape? rest
      let (cs, rest) ← basicText? fuel rest
      return (c :: cs, rest)
  | fuel + 1, c :: rest =>
    match lineBreak? (c :: rest) with
    | some rest => do
      let (cs, rest) ← basicText? fuel rest
      return ('\n' :: cs, rest)
    | none =>
      if isForbidden c then none
      else do
        let (cs, rest) ← basicText? fuel rest
        return (c :: cs, rest)

/-- The rest of a string without escapes over several lines. -/
def literalText? : Nat → List Char → Option (List Char × List Char)
  | 0, _ => none
  | _ + 1, [] => none
  | fuel + 1, c :: rest =>
    if c = '\'' && ['\'', '\''].isPrefixOf rest then closing? '\'' (c :: rest)
    else
      match lineBreak? (c :: rest) with
      | some rest => do
        let (cs, rest) ← literalText? fuel rest
        return ('\n' :: cs, rest)
      | none =>
        if isForbidden c then none
        else do
          let (cs, rest) ← literalText? fuel rest
          return (c :: cs, rest)

/-- Drops the line break right behind the opening quotes of a string over several lines. -/
def dropFirstBreak (cs : List Char) : List Char := (lineBreak? cs).getD cs

/-- A string of any of the four forms. -/
def string? (fuel : Nat) : List Char → Option (String × List Char)
  | '"' :: '"' :: '"' :: rest =>
    (basicText? fuel (dropFirstBreak rest)).map fun r => (String.ofList r.1, r.2)
  | '\'' :: '\'' :: '\'' :: rest =>
    (literalText? fuel (dropFirstBreak rest)).map fun r => (String.ofList r.1, r.2)
  | '"' :: rest => (basicString? fuel rest).map fun r => (String.ofList r.1, r.2)
  | '\'' :: rest => (literalString? rest).map fun r => (String.ofList r.1, r.2)
  | _ => none

/-! ## §3. Keys. -/

/-- One part of a key. -/
def keyPart? (fuel : Nat) : List Char → Option (String × List Char)
  | '"' :: rest => (basicString? fuel rest).map fun r => (String.ofList r.1, r.2)
  | '\'' :: rest => (literalString? rest).map fun r => (String.ofList r.1, r.2)
  | cs =>
    match cs.takeWhile isKeyChar with
    | [] => none
    | part => some (String.ofList part, cs.dropWhile isKeyChar)

/-- A key: parts with dots between them. -/
def key? : Nat → List Char → Option (List String × List Char)
  | 0, _ => none
  | fuel + 1, cs => do
    let (part, rest) ← keyPart? fuel (skipBlanks cs)
    match skipBlanks rest with
    | '.' :: rest =>
      let (parts, rest) ← key? fuel rest
      return (part :: parts, rest)
    | rest => return ([part], rest)

/-! ## §4. Numbers, truth values and dates. -/

/-- The digits of a number in which single underscores stand between digits only. -/
def digits? (isDigit : Char → Bool) : List Char → Option (List Char)
  | [] => none
  | [c] => if isDigit c then some [c] else none
  | c :: '_' :: rest => if isDigit c then (digits? isDigit rest).map (c :: ·) else none
  | c :: rest => if isDigit c then (digits? isDigit rest).map (c :: ·) else none

/-- The number that digits spell in a base. -/
def valueIn (base : Nat) (digits : List Char) : Nat :=
  digits.foldl (fun n c => n * base + (Text.hexValue? c).getD 0) 0

/-- A whole number within 64 bits. -/
def bounded? (n : Int) : Option Toml :=
  if -0x8000000000000000 ≤ n && n < 0x8000000000000000 then some (.integer n) else none

/-- The digits of a decimal number without a leading zero. -/
def decimal? (cs : List Char) : Option (List Char) := do
  match ← digits? Char.isDigit cs with
  | '0' :: _ :: _ => none
  | ds => some ds

/-- A word without its sign, and whether it is negative. -/
def unsigned : List Char → Bool × List Char
  | '-' :: rest => (true, rest)
  | '+' :: rest => (false, rest)
  | cs => (false, cs)

/-- A whole number. -/
def integer? : List Char → Option Toml
  | '0' :: 'x' :: rest =>
    (digits? (fun c => (Text.hexValue? c).isSome) rest).bind fun ds => bounded? (valueIn 16 ds)
  | '0' :: 'o' :: rest =>
    (digits? (fun c => '0' ≤ c && c ≤ '7') rest).bind fun ds => bounded? (valueIn 8 ds)
  | '0' :: 'b' :: rest =>
    (digits? (fun c => c = '0' || c = '1') rest).bind fun ds => bounded? (valueIn 2 ds)
  | cs => do
    let (negative, cs) := unsigned cs
    let n : Int := valueIn 10 (← decimal? cs)
    bounded? (if negative then -n else n)

/-- Cuts a word at the first character that passes a test. -/
def cutAt (p : Char → Bool) (cs : List Char) : List Char × Option (List Char) :=
  match cs.dropWhile fun c => !p c with
  | [] => (cs, none)
  | _ :: rest => (cs.takeWhile fun c => !p c, some rest)

/-- Is the word a number with a fraction or an exponent, or one of the special numbers? -/
def isFraction (cs : List Char) : Bool :=
  let body := (unsigned cs).2
  let (mantissa, power) := cutAt (fun c => c = 'e' || c = 'E') body
  let (whole, places) := cutAt (· = '.') mantissa
  let powerOk := power.all fun e => (digits? Char.isDigit (unsigned e).2).isSome
  let placesOk := places.all fun f => (digits? Char.isDigit f).isSome
  body = ['i', 'n', 'f'] || body = ['n', 'a', 'n']
    || ((power.isSome || places.isSome) && (decimal? whole).isSome && placesOk && powerOk)

/-- A number of exactly so many digits within bounds. -/
def field? (count least most : Nat) (cs : List Char) : Option (Nat × List Char) :=
  let ds := cs.take count
  let n := valueIn 10 ds
  if ds.length = count && ds.all Char.isDigit && least ≤ n && n ≤ most then some (n, cs.drop count)
  else none

/-- Drops a character that has to be there. -/
def drop? (p : Char → Bool) : List Char → Option (List Char)
  | c :: rest => if p c then some rest else none
  | [] => none

/-- How many days a month has. -/
def daysIn (year month : Nat) : Nat :=
  if month = 2 then
    if year % 4 = 0 && (year % 100 ≠ 0 || year % 400 = 0) then 29 else 28
  else if month = 4 || month = 6 || month = 9 || month = 11 then 30
  else 31

/-- Drops a date. -/
def date? (cs : List Char) : Option (List Char) := do
  let (year, cs) ← field? 4 0 9999 cs
  let (month, cs) ← field? 2 1 12 (← drop? (· = '-') cs)
  let (_, cs) ← field? 2 1 (daysIn year month) (← drop? (· = '-') cs)
  return cs

/-- Drops the fraction of a second, if there is one. -/
def subsecond? : List Char → Option (List Char)
  | '.' :: rest =>
    if (rest.takeWhile Char.isDigit).isEmpty then none else some (rest.dropWhile Char.isDigit)
  | cs => some cs

/-- Drops a time of day. -/
def time? (cs : List Char) : Option (List Char) := do
  let (_, cs) ← field? 2 0 23 cs
  let (_, cs) ← field? 2 0 59 (← drop? (· = ':') cs)
  let (_, cs) ← field? 2 0 60 (← drop? (· = ':') cs)
  subsecond? cs

/-- Drops an offset from universal time, if there is one. -/
def offset? : List Char → Option (List Char)
  | 'Z' :: rest | 'z' :: rest => some rest
  | '+' :: rest | '-' :: rest => do
    let (_, cs) ← field? 2 0 23 rest
    let (_, cs) ← field? 2 0 59 (← drop? (· = ':') cs)
    return cs
  | cs => some cs

/-- Drops a date, a time or both. -/
def moment? (cs : List Char) : Option (List Char) :=
  match date? cs with
  | none => time? cs
  | some rest =>
    match rest with
    | c :: later =>
      if c = 'T' || c = 't' || (c = ' ' && later.head?.any Char.isDigit) then do
        offset? (← time? later)
      else some rest
    | [] => some []

/-- Characters of words that stand for numbers and truth values. -/
def isWordChar (c : Char) : Bool :=
  c.isAlphanum || c = '_' || c = '-' || c = '+' || c = '.' || c = ':'

/-- A value that is a single word. -/
def word? (cs : List Char) : Option (Toml × List Char) :=
  let word := cs.takeWhile isWordChar
  let rest := cs.dropWhile isWordChar
  if word = ['t', 'r', 'u', 'e'] then some (.boolean true, rest)
  else if word = ['f', 'a', 'l', 's', 'e'] then some (.boolean false, rest)
  else
    match moment? cs with
    | some rest => some (.moment, rest)
    | none =>
      match integer? word with
      | some n => some (n, rest)
      | none => if isFraction word then some (.fraction, rest) else none

/-! ## §5. Tables under construction. -/

/-- How a table came about. -/
inductive Origin where
  /-- As the way to a table below it. -/
  | passage
  /-- By its own header, or as the table of a document. -/
  | header
  /-- By dotted keys. -/
  | dotted
deriving DecidableEq

/-- A part of a document under construction. -/
inductive Node where
  | leaf (value : Toml)
  | branch (origin : Origin) (members : List (String × Node))
  /-- Tables with one header, the latest first. -/
  | several (tables : List (List (String × Node)))

/-- The members of a table under construction. -/
abbrev Members := List (String × Node)

/-- Replaces the node at a key. -/
def setMember (members : Members) (key : String) (node : Node) : Members :=
  if members.any (·.1 = key) then members.map fun m => if m.1 = key then (key, node) else m
  else members ++ [(key, node)]

/-- Sets a key of several parts; `inside` tells whether the table was reached by dotted keys. -/
def insert? (members : Members) (value : Toml) : List String → Option Members
  | [] => none
  | [key] =>
    match members.lookup key with
    | none => some (members ++ [(key, .leaf value)])
    | some _ => none
  | key :: next :: rest =>
    match members.lookup key with
    | none => do
      return members ++ [(key, .branch .dotted (← insert? [] value (next :: rest)))]
    | some (.branch .dotted inner) => do
      return setMember members key (.branch .dotted (← insert? inner value (next :: rest)))
    | some (.branch .passage inner) => do
      if rest.isEmpty then none
      else return setMember members key (.branch .passage (← insert? inner value (next :: rest)))
    | some _ => none

/-- Changes the table that a header leads to. -/
def atTable? (change : Members → Option Members) (members : Members) : List String → Option Members
  | [] => change members
  | key :: rest =>
    match members.lookup key with
    | some (.branch origin inner) => do
      return setMember members key (.branch origin (← atTable? change inner rest))
    | some (.several (latest :: earlier)) => do
      return setMember members key (.several ((← atTable? change latest rest) :: earlier))
    | _ => none

/-- Opens the table of a header. -/
def openTable? (members : Members) : List String → Option Members
  | [] => none
  | [key] =>
    match members.lookup key with
    | none => some (members ++ [(key, .branch .header [])])
    | some (.branch .passage inner) => some (setMember members key (.branch .header inner))
    | some _ => none
  | key :: rest =>
    match members.lookup key with
    | none => do return members ++ [(key, .branch .passage (← openTable? [] rest))]
    | some (.branch origin inner) => do
      return setMember members key (.branch origin (← openTable? inner rest))
    | some (.several (latest :: earlier)) => do
      return setMember members key (.several ((← openTable? latest rest) :: earlier))
    | some _ => none

/-- Opens one more of several tables with one header. -/
def openFurther? (members : Members) : List String → Option Members
  | [] => none
  | [key] =>
    match members.lookup key with
    | none => some (members ++ [(key, .several [[]])])
    | some (.several tables) => some (setMember members key (.several ([] :: tables)))
    | some _ => none
  | key :: rest =>
    match members.lookup key with
    | none => do return members ++ [(key, .branch .passage (← openFurther? [] rest))]
    | some (.branch origin inner) => do
      return setMember members key (.branch origin (← openFurther? inner rest))
    | some (.several (latest :: earlier)) => do
      return setMember members key (.several ((← openFurther? latest rest) :: earlier))
    | some _ => none

mutual

/-- The finished value of a node. -/
def Node.value : Node → Toml
  | .leaf v => v
  | .branch _ members => .table (finish members)
  | .several tables => .array (finishAll tables).reverse

/-- The finished entries of a table. -/
def finish : List (String × Node) → List (String × Toml)
  | [] => []
  | (key, node) :: rest => (key, node.value) :: finish rest

/-- The finished tables with one header. -/
def finishAll : List (List (String × Node)) → List Toml
  | [] => []
  | members :: rest => .table (finish members) :: finishAll rest

end

/-! ## §6. Values. -/

mutual

/-- Reads a value; every call uses one unit of fuel. -/
def value? : Nat → List Char → Option (Toml × List Char)
  | 0, _ => none
  | fuel + 1, cs =>
    match cs with
    | '"' :: _ | '\'' :: _ => (string? fuel cs).map fun r => (.string r.1, r.2)
    | '[' :: rest => (items? fuel rest).map fun r => (.array r.1, r.2)
    | '{' :: rest =>
      match skipBlanks rest with
      | '}' :: rest => some (.table [], rest)
      | rest => (members? fuel [] rest).map fun r => (.table (finish r.1), r.2)
    | cs => word? cs

/-- Reads the items of an array up to its closing bracket. -/
def items? : Nat → List Char → Option (List Toml × List Char)
  | 0, _ => none
  | fuel + 1, cs => do
    match ← skipFiller? fuel cs with
    | ']' :: rest => return ([], rest)
    | cs =>
      let (item, rest) ← value? fuel cs
      match ← skipFiller? fuel rest with
      | ']' :: rest => return ([item], rest)
      | ',' :: rest =>
        let (items, rest) ← items? fuel rest
        return (item :: items, rest)
      | _ => none

/-- Reads the members of a table on one line up to its closing brace. -/
def members? : Nat → Members → List Char → Option (Members × List Char)
  | 0, _, _ => none
  | fuel + 1, members, cs => do
    let (key, rest) ← key? fuel cs
    let rest ← drop? (· = '=') rest
    let (value, rest) ← value? fuel (skipBlanks rest)
    let members ← insert? members value key
    match skipBlanks rest with
    | '}' :: rest => return (members, rest)
    | ',' :: rest => members? fuel members rest
    | _ => none

end

/-! ## §7. Documents. -/

/-- Reads the key of a header up to its closing brackets. -/
def header? (fuel : Nat) (cs : List Char) (brackets : List Char) :
    Option (List String × List Char) := do
  let (key, rest) ← key? fuel cs
  let rest ← brackets.foldlM (fun rest b => drop? (· = b) rest) rest
  return (key, ← endLine? rest)

/-- Reads the lines of a document, given what is defined so far and the header in force. -/
def lines? : Nat → Members → List String → List Char → Option Members
  | 0, _, _, _ => none
  | fuel + 1, members, header, cs => do
    match ← skipFiller? fuel cs with
    | [] => return members
    | '[' :: '[' :: rest =>
      let (key, rest) ← header? fuel rest [']', ']']
      lines? fuel (← openFurther? members key) key rest
    | '[' :: rest =>
      let (key, rest) ← header? fuel rest [']']
      lines? fuel (← openTable? members key) key rest
    | cs =>
      let (key, rest) ← key? fuel cs
      let (value, rest) ← value? fuel (skipBlanks (← drop? (· = '=') rest))
      let members ← atTable? (fun inner => insert? inner value key) members header
      lines? fuel members header (← endLine? rest)

/-- Drops the mark that some editors put in front of a text. -/
def dropMark : List Char → List Char
  | '\uFEFF' :: rest => rest
  | cs => cs

/-- Reads a document into its entries. -/
def parse? (s : String) : Option (List (String × Toml)) :=
  let cs := dropMark s.toList
  (lines? (2 * cs.length + 4) [] [] cs).map finish

end Toml

end LogicBoard
