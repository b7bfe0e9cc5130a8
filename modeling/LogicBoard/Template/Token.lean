/-
  LogicBoard.Template.Token
  ────────────────────────────────
  **THE TOKENS OF TEMPLATES.**

  A template is text with places for values between double braces, with tags
  between braces and percent signs, and with comments.  This module cuts a
  template into its texts and the tokens of its places and tags.

  A tag or comment that is alone on its line leaves no trace of that line:
  the blanks before it and the line break after it are dropped.  A hyphen at
  the edge of a place, a tag or a comment drops all white space beyond that
  edge, and a plus sign keeps all of it.
-/
import LogicBoard.Text.Blank
import LogicBoard.Text.Digits

namespace LogicBoard

namespace Template

/-- A piece of a template. -/
inductive Token where
  | text (s : String)
  /-- The braces around a place for a value. -/
  | openPlace
  | closePlace
  /-- The edges of a tag. -/
  | openTag
  | closeTag
  | word (s : String)
  | string (s : String)
  | number (n : Nat)
  | symbol (s : String)
deriving DecidableEq, Inhabited

namespace Token

/-! ## §1. White space. -/

/-- What an edge asks to be done with the white space beyond it. -/
inductive Edge where
  | plain
  | keep
  | drop
deriving DecidableEq

/-- The request of the character at an edge. -/
def Edge.ofChar? : Char → Option Edge
  | '-' => some .drop
  | '+' => some .keep
  | _ => none

/-- The request at an edge, and what follows it. -/
def Edge.read : List Char → Edge × List Char
  | c :: rest =>
    match Edge.ofChar? c with
    | some e => (e, rest)
    | none => (.plain, c :: rest)
  | [] => (.plain, [])

/-- Does the character end a line? -/
def isBreak (c : Char) : Bool := c = '\n' || c = '\r'

/-- Drops a line break at the beginning. -/
def dropBreak (cs : List Char) : List Char :=
  let cs := match cs with
    | '\r' :: rest => rest
    | _ => cs
  match cs with
  | '\n' :: rest => rest
  | _ => cs

/-- Drops a line break at the end. -/
def dropLastBreak (cs : List Char) : List Char :=
  let back := match cs.reverse with
    | '\n' :: rest => rest
    | back => back
  match back with
  | '\r' :: rest => rest.reverse
  | _ => back.reverse

/-- Drops the blanks after the last line break, if there is nothing else. -/
def dropIndent (cs : List Char) : List Char :=
  let kept := (cs.reverse.dropWhile fun c => Text.isBlank c && !isBreak c).reverse
  if kept.getLast?.all isBreak then kept else cs

/-- Is the line that a text ends in blank so far, given whether it was before the text? -/
def isLineBlank (before : Bool) (cs : List Char) : Bool :=
  let line := cs.reverse.takeWhile (!isBreak ·)
  line.all Text.isBlank && (before || line.length < cs.length)

/-! ## §2. Cutting a template. -/

/-- The marks that begin something other than text. -/
inductive Mark where
  | place
  | tag
  | comment
deriving DecidableEq

/-- The mark for a character behind a brace. -/
def Mark.ofChar? : Char → Option Mark
  | '{' => some .place
  | '%' => some .tag
  | '#' => some .comment
  | _ => none

/-- The text up to the first mark, the mark and what follows it. -/
def cutAtMark : List Char → List Char × Option (Mark × List Char)
  | '\x7b' :: c :: rest =>
    match Mark.ofChar? c with
    | some m => ([], some (m, rest))
    | none => let (lead, found) := cutAtMark (c :: rest); ('\x7b' :: lead, found)
  | c :: rest => let (lead, found) := cutAtMark rest; (c :: lead, found)
  | [] => ([], none)

/-- The text up to a closing pair of characters, and what follows the pair. -/
def cutAtPair (a b : Char) : List Char → Option (List Char × List Char)
  | c :: d :: rest =>
    if c = a && d = b then some ([], rest)
    else (cutAtPair a b (d :: rest)).map fun r => (c :: r.1, r.2)
  | _ => none

/-- Drops white space. -/
def skipBlanks (cs : List Char) : List Char := cs.dropWhile Text.isBlank

/-- The request at the right edge of a tag that consists of one word, and what follows it. -/
def plainTag? (word : String) (cs : List Char) : Option (Edge × List Char) :=
  let cs := skipBlanks cs
  if word.toList.isPrefixOf cs then
    let (edge, cs) := Edge.read (skipBlanks (cs.drop word.length))
    match cs with
    | '%' :: '\x7d' :: rest => some (edge, rest)
    | _ => none
  else none

/-- Text that is kept as it is up to the tag that ends it, the requests at both edges of that
tag, and what follows it. -/
def verbatim? : List Char → Option (List Char × Edge × Edge × List Char)
  | [] => none
  | c :: rest =>
    let next := (verbatim? rest).map fun r => (c :: r.1, r.2)
    match c, rest with
    | '\x7b', '%' :: inner =>
      let (left, inner) := Edge.read inner
      match plainTag? "endraw" inner with
      | some (right, rest) => some ([], left, right, rest)
      | none => next
    | _, _ => next

/-! ## §3. Inside places and tags. -/

/-- Characters that begin words. -/
def isWordStart (c : Char) : Bool := c.isAlpha || c = '_'

/-- Characters of words. -/
def isWordChar (c : Char) : Bool := c.isAlphanum || c = '_'

/-- The character that a letter behind a backslash stands for. -/
def escaped? : Char → Option Char
  | '"' => some '"'
  | '\'' => some '\''
  | '\\' => some '\\'
  | '/' => some '/'
  | 'n' => some '\n'
  | 'r' => some '\r'
  | 't' => some '\t'
  | 'b' => some '\x08'
  | 'f' => some '\x0c'
  | _ => none

/-- The rest of a string, behind its opening quote. -/
def string? (quote : Char) : List Char → Option (List Char × List Char)
  | [] => none
  | '\\' :: c :: rest => do
    let (cs, rest) ← string? quote rest
    return ((← escaped? c) :: cs, rest)
  | c :: rest =>
    if c = quote then some ([], rest)
    else (string? quote rest).map fun r => (c :: r.1, r.2)

/-- A symbol of two characters. -/
def pair? : Char → Char → Option String
  | '=', '=' => some "=="
  | '!', '=' => some "!="
  | '<', '=' => some "<="
  | '>', '=' => some ">="
  | '/', '/' => some "//"
  | '*', '*' => some "**"
  | _, _ => none

/-- A symbol, and what follows it. -/
def symbol? : List Char → Option (Token × List Char)
  | [] => none
  | c :: rest =>
    match rest.head?.bind (pair? c) with
    | some s => some (.symbol s, rest.drop 1)
    | none =>
      if "+-*/%.,:~|=<>()[]".toList.contains c then some (.symbol (String.singleton c), rest)
      else none

/-- One token of a place or a tag, and what follows it. -/
def inner? : List Char → Option (Token × List Char)
  | [] => none
  | c :: rest =>
    if isWordStart c then
      some (.word (String.ofList (c :: rest.takeWhile isWordChar)), rest.dropWhile isWordChar)
    else if c.isDigit then
      let ds := c :: rest.takeWhile Char.isDigit
      some (.number (Text.digitsValue ds), rest.dropWhile Char.isDigit)
    else if c = '"' || c = '\'' then
      (string? c rest).map fun r => (.string (String.ofList r.1), r.2)
    else symbol? (c :: rest)

/-- The request at the right edge of a place or a tag, if the text begins with that edge, and what
follows. -/
def closing? (tag : Bool) (cs : List Char) : Option (Edge × List Char) :=
  let (edge, rest) := Edge.read cs
  match tag, rest with
  | true, '%' :: '\x7d' :: rest => some (edge, rest)
  | false, '\x7d' :: '\x7d' :: rest => some (edge, rest)
  | _, _ => none

/-! ## §4. Tokens of a template. -/

/-- Where the reading of a template stands. -/
inductive Place where
  /-- In text; the line so far may be blank, and white space may be dropped. -/
  | text (blank trim : Bool)
  /-- In a tag or a place for a value. -/
  | inside (tag : Bool)

/-- How text goes on behind an edge, and the text itself. -/
def behind (breaks : Bool) (edge : Edge) (cs : List Char) : Place × List Char :=
  match edge with
  | .drop => (.text false true, cs)
  | .keep => (.text false false, cs)
  | .plain =>
    let rest := if breaks then dropBreak cs else cs
    (.text (rest.length < cs.length) false, rest)

/-- A token for text, unless there is none. -/
def ofText (cs : List Char) : List Token :=
  if cs.isEmpty then [] else [.text (String.ofList cs)]

/-- The text before a mark, as far as the mark leaves it. -/
def leadOf (blank : Bool) (m : Mark) (edge : Edge) (lead : List Char) : List Char :=
  match edge with
  | .drop => Text.trimEndChars lead
  | .keep => lead
  | .plain => if m ≠ .place && isLineBlank blank lead then dropIndent lead else lead

/-- The tokens of a template; every step uses one unit of fuel. -/
def tokens? : Nat → Place → List Char → Option (List Token)
  | 0, _, _ => none
  | fuel + 1, .inside tag, cs =>
    let cs := skipBlanks cs
    match closing? tag cs with
    | some (edge, rest) => do
      let (place, rest) := behind tag edge rest
      return (if tag then Token.closeTag else .closePlace) :: (← tokens? fuel place rest)
    | none => do
      let (token, rest) ← inner? cs
      return token :: (← tokens? fuel (.inside tag) rest)
  | fuel + 1, .text blank trim, cs =>
    let trimmed := if trim then skipBlanks cs else cs
    let blank := if trim then isLineBlank blank (cs.take (cs.length - trimmed.length)) else blank
    match cutAtMark trimmed with
    | (lead, none) => some (ofText lead)
    | (lead, some (.comment, inner)) => do
      let lead := ofText (leadOf blank .comment (Edge.read inner).1 lead)
      let (comment, rest) ← cutAtPair '#' '\x7d' inner
      let (place, rest) := behind true ((comment.getLast?.bind Edge.ofChar?).getD .plain) rest
      return lead ++ (← tokens? fuel place rest)
    | (lead, some (.place, inner)) => do
      let (edge, inner) := Edge.read inner
      return ofText (leadOf blank .place edge lead) ++ .openPlace
        :: (← tokens? fuel (.inside false) inner)
    | (lead, some (.tag, inner)) => do
      let (edge, inner) := Edge.read inner
      let lead := ofText (leadOf blank .tag edge lead)
      match plainTag? "raw" inner with
      | none => return lead ++ .openTag :: (← tokens? fuel (.inside true) inner)
      | some (first, body) =>
        let (body, left, right, rest) ← verbatim? body
        let body := match first with
          | .plain => dropBreak body
          | .drop => skipBlanks body
          | .keep => body
        let body := match left with
          | .plain => dropIndent body
          | .drop => Text.trimEndChars body
          | .keep => body
        let (place, rest) := behind true right rest
        return lead ++ ofText body ++ (← tokens? fuel place rest)

end Token

/-- The tokens of a template.  A line break at its very end does not count. -/
def tokens? (s : String) : Option (List Token) :=
  let cs := Token.dropLastBreak s.toList
  Token.tokens? (2 * cs.length + 2) (.text true false) cs

end Template

end LogicBoard
