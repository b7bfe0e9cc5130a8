/-
  LogicBoard.Design.Name
  ────────────────────────────────
  **NAMES OF CHIPS AND CHIP TYPES.**

  Chips and chip types are named without regard to case: a name is kept in
  lower case.  Inside the content of a type, the type's own name stands for
  its boundary, as if the boundary were one more chip.  So chips and types
  share one kind of name.
-/
import LogicBoard.Table
import LogicBoard.Text.Case

namespace LogicBoard

/-- A name in lower case. -/
structure Name where
  text : String
deriving DecidableEq, Inhabited

namespace Name

/-- The name of what was typed. -/
def ofText (s : String) : Name := ⟨Text.lower s⟩

/-- Is it the empty name? -/
def isEmpty (n : Name) : Bool := n.text.isEmpty

instance : LE Name := ⟨fun a b => a.text ≤ b.text⟩

instance : LT Name := ⟨fun a b => a.text < b.text⟩

instance (a b : Name) : Decidable (a < b) := inferInstanceAs (Decidable (a.text < b.text))

instance (a b : Name) : Decidable (a ≤ b) := inferInstanceAs (Decidable (a.text ≤ b.text))

instance : Std.IsLinearOrder Name where
  le_refl a := Std.le_refl a.text
  le_trans _ _ _ h h' := Std.le_trans (α := String) h h'
  le_antisymm a b h h' := by
    cases a
    cases b
    exact congrArg Name.mk (Std.le_antisymm (α := String) h h')
  le_total a b := Std.le_total (a := a.text) (b := b.text)

instance : Std.LawfulOrderLT Name where
  lt_iff a b := Std.LawfulOrderLT.lt_iff a.text b.text

/-- Compares two names by the code points of their texts. -/
def order (a b : Name) : Ordering := compare a.text b.text

end Name

/-- Names without repetitions, in rising order. -/
def sortedNames (names : List Name) : List Name :=
  (Table.ofList (names.map fun n => (n, ()))).keys

end LogicBoard
