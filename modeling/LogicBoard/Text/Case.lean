/-
  LogicBoard.Text.Case
  ────────────────────────────────
  **UPPER AND LOWER CASE OF TEXT.**

  Names ignore the case they were typed in, so every name is folded once,
  when it is made: chip and type names to lower case, port and constant
  names to upper case.  Both maps follow the full Unicode mapping, in which
  one letter may become several (`ß` becomes `SS`), and in which a capital
  sigma at the end of a word has a lower case of its own.
-/
import LogicBoard.Text.CaseTable

namespace LogicBoard.Text

/-! ## §1. One character. -/

/-- The image of a character under a case mapping given by its two tables. -/
def caseImage (runs : List CaseRun) (expansions : List (Nat × List Nat)) (c : Char) : List Char :=
  match expansions.lookup c.toNat with
  | some image => image.map Char.ofNat
  | none =>
    match runs.find? (·.covers c.toNat) with
    | some run => [Char.ofNat (c.toNat + run.shift).toNat]
    | none => [c]

/-- The upper case of a character. -/
def upperChar (c : Char) : List Char :=
  if c.toNat < 128 then [c.toUpper] else caseImage upperRuns upperExpansions c

/-- The lower case of a character that stands alone. -/
def lowerChar (c : Char) : List Char :=
  if c.toNat < 128 then [c.toLower] else caseImage lowerRuns lowerExpansions c

/-! ## §2. A capital sigma. -/

/-- Is the first character that counts one that carries case? -/
def meetsCased (cs : List Char) : Bool :=
  match cs.dropWhile fun c => inRanges passedOverRanges c.toNat with
  | [] => false
  | c :: _ => inRanges casedRanges c.toNat

/-- A sigma ends a word when a cased letter stands before it and none after it. -/
def endsWord (before after : List Char) : Bool :=
  meetsCased before && !meetsCased after

/-- The lower case of a sigma between the reversed text before it and the text after it. -/
def lowerSigma (before after : List Char) : Char :=
  if endsWord before after then 'ς' else 'σ'

/-! ## §3. Whole texts. -/

/-- The upper case of a list of characters. -/
def upperChars (cs : List Char) : List Char :=
  cs.flatMap upperChar

/-- The lower case of what follows `before`, which is kept in reverse. -/
def lowerCharsAfter (before : List Char) : List Char → List Char
  | [] => []
  | c :: rest =>
    (if c = 'Σ' then [lowerSigma before rest] else lowerChar c) ++ lowerCharsAfter (c :: before) rest

/-- The lower case of a list of characters. -/
def lowerChars (cs : List Char) : List Char :=
  lowerCharsAfter [] cs

/-- The upper case of a text. -/
def upper (s : String) : String :=
  String.ofList (upperChars s.toList)

/-- The lower case of a text. -/
def lower (s : String) : String :=
  String.ofList (lowerChars s.toList)

end LogicBoard.Text
