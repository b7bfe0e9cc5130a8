/-
  LogicBoard.Text.Blank
  ────────────────────────────────
  **BLANKS, TRIMMING AND LINES.**

  A blank is a character with the Unicode property `White_Space`.  Text is
  trimmed of blanks at both ends or at its end only, and cut into lines at
  line feeds; a carriage return right before a line feed belongs to it.
-/
namespace LogicBoard.Text

/-! ## §1. Blanks. -/

/-- Closed ranges of the code points with the property `White_Space`. -/
def blankRanges : List (Nat × Nat) := [
  (0x9, 0xD), (0x20, 0x20), (0x85, 0x85), (0xA0, 0xA0), (0x1680, 0x1680), (0x2000, 0x200A),
  (0x2028, 0x2029), (0x202F, 0x202F), (0x205F, 0x205F), (0x3000, 0x3000)]

/-- Is the character a blank? -/
def isBlank (c : Char) : Bool :=
  blankRanges.any fun r => r.1 ≤ c.toNat && c.toNat ≤ r.2

example : isBlank ' ' ∧ isBlank '\x0c' ∧ isBlank '\u00a0' ∧ ¬ isBlank '\u200b' := by decide

/-! ## §2. Trimming. -/

/-- Drops the blanks a text begins with. -/
def trimStartChars (cs : List Char) : List Char :=
  cs.dropWhile isBlank

/-- Drops the blanks a text ends with. -/
def trimEndChars (cs : List Char) : List Char :=
  (cs.reverse.dropWhile isBlank).reverse

/-- Drops the blanks at both ends of a text. -/
def trimChars (cs : List Char) : List Char :=
  trimEndChars (trimStartChars cs)

/-- A text without the blanks at its ends. -/
def trim (s : String) : String :=
  String.ofList (trimChars s.toList)

/-- A text without the blanks at its end. -/
def trimEnd (s : String) : String :=
  String.ofList (trimEndChars s.toList)

/-! ## §3. Lines. -/

/-- Cuts at every line feed; the last piece is what follows the last one. -/
def splitLines : List Char → List (List Char)
  | [] => [[]]
  | c :: rest =>
    if c = '\n' then [] :: splitLines rest
    else
      match splitLines rest with
      | [] => [[c]]
      | line :: lines => (c :: line) :: lines

/-- A line without the carriage return it ends with. -/
def dropReturn (line : List Char) : List Char :=
  if line.getLast? = some '\r' then line.dropLast else line

/-- The lines of a text.  A line feed ends a line, so a last piece that is empty is none. -/
def linesOf (cs : List Char) : List (List Char) :=
  let pieces := splitLines cs
  let complete := pieces.dropLast.map dropReturn
  match pieces.getLast? with
  | none | some [] => complete
  | some line => complete ++ [line]

/-- The lines of a text. -/
def lines (s : String) : List String :=
  (linesOf s.toList).map String.ofList

end LogicBoard.Text
