/-
  LogicBoard.Text.Quoted
  ────────────────────────────────
  **TEXTS SHOWN BETWEEN QUOTES.**

  A text that is shown to a person is put between quotes, and every character
  that would not be seen as itself is replaced by an escape: controls, blanks
  other than the space, marks that combine with the character before them,
  and characters without a shape.
-/
import LogicBoard.Text.Blank

namespace LogicBoard.Text

/-- Ranges of marks that combine with the character before them. -/
def markRanges : List (Nat × Nat) := [
  (0x300, 0x36F), (0x483, 0x489), (0x591, 0x5BD), (0x610, 0x61A), (0x64B, 0x65F), (0x1AB0, 0x1ACE),
  (0x1DC0, 0x1DFF), (0x20D0, 0x20F0), (0x302A, 0x302F), (0x3099, 0x309A), (0xFE00, 0xFE0F),
  (0xFE20, 0xFE2F), (0xE0100, 0xE01EF)]

/-- Ranges of characters without a shape. -/
def hiddenRanges : List (Nat × Nat) := [
  (0x00, 0x1F), (0x7F, 0x9F), (0xAD, 0xAD), (0x600, 0x605), (0x61C, 0x61C), (0x6DD, 0x6DD),
  (0x70F, 0x70F), (0x180E, 0x180E), (0x200B, 0x200F), (0x202A, 0x202E), (0x2060, 0x206F),
  (0xE000, 0xF8FF), (0xFEFF, 0xFEFF), (0xFFF0, 0xFFFB), (0xFFFE, 0xFFFF), (0xE0000, 0xE00FF),
  (0xF0000, 0x10FFFF)]

/-- Is the character seen as itself? -/
def isShown (c : Char) : Bool :=
  c = ' ' || !(isBlank c || (markRanges ++ hiddenRanges).any fun r => r.1 ≤ c.toNat && c.toNat ≤ r.2)

/-- A character between quotes. -/
def quotedChar (c : Char) : List Char :=
  if c = '"' then ['\\', '"']
  else if c = '\\' then ['\\', '\\']
  else if c = '\n' then ['\\', 'n']
  else if c = '\r' then ['\\', 'r']
  else if c = '\t' then ['\\', 't']
  else if c = '\x00' then ['\\', '0']
  else if isShown c then [c]
  else "\\u\x7b".toList ++ Nat.toDigits 16 c.toNat ++ ['\x7d']

/-- A text between quotes. -/
def quoted (s : String) : String :=
  "\"" ++ String.ofList (s.toList.flatMap quotedChar) ++ "\""

end LogicBoard.Text
