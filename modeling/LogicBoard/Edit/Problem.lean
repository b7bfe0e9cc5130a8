/-
  LogicBoard.Edit.Problem
  ────────────────────────────────
  **WHAT IS WRONG WITH A CONTENT.**

  A content may hold wires without a route and custom chips that do not fit
  into the type around them.  Problems inside custom chips are found as well,
  as long as the types get smaller on the way in, so that even types which
  contain each other are searched to an end.
-/
import LogicBoard.Design.Chip
import LogicBoard.Diagnostic.Basic

namespace LogicBoard

/-! ## §1. Problems. -/

/-- A problem of a content. -/
inductive Problem where
  /-- The wire has no route. -/
  | unrouted (wire : WireId)
  /-- The area of the custom chip is not below that of the type around it. -/
  | tooLarge (chip : Name)
  /-- There is a problem inside the custom chip. -/
  | inside (chip type : Name) (problem : Problem)
deriving DecidableEq

namespace Problem

/-- The words for a problem. -/
def text : Problem → String
  | unrouted wire => "Invalid Connection " ++ wire.text
  | tooLarge chip => "Chip Too Large " ++ chip.text
  | inside chip _ problem => problem.text ++ " (inside " ++ chip.text ++ ")"

/-- The innermost problem. -/
def root : Problem → Problem
  | inside _ _ problem => problem.root
  | problem => problem

/-- The problem as a diagnostic about a type. -/
def diagnostic (owner : Name) : Problem → Diagnostic
  | unrouted wire =>
    (Diagnostic.ofError 101 ("no route for connection `" ++ wire.text ++ "`")
      (.ofItem owner.text wire.text)).withHelp
      "move the chips apart or clear the obstruction, then reroute"
  | tooLarge chip =>
    (Diagnostic.ofError 102
      ("chip `" ++ chip.text ++ "` is not smaller than `" ++ owner.text ++ "`")
      (.ofItem owner.text chip.text)).withNote
      "a custom chip must have a smaller area than the chip that contains it"
  | inside chip type problem =>
    ((Diagnostic.ofError 103
      ("chip `" ++ chip.text ++ "` of type `" ++ type.text ++ "` has errors")
      (.ofItem owner.text chip.text)).withNote problem.text).withHelp
      ("open `" ++ type.text ++ "` to fix it")

end Problem

/-! ## §2. Finding them. -/

namespace Content

/-- The least coordinate there is. -/
def leastCoordinate : Int := -2147483648

/-- The chips that are not of a standard type. -/
def customChips (c : Content) (types : TypeLookup) : List Chip :=
  c.chips.values.filter fun chip => !types.isStandard chip.type

/-- The wires without a route. -/
def unroutedWires (c : Content) : List Problem :=
  (c.wires.filter (!·.valid)).map fun w => .unrouted w.id

/-- The custom chips that do not fit into a type of the given size. -/
def oversizedChips (c : Content) (size : Vec) (types : TypeLookup) : List Problem :=
  ((c.customChips types).filter fun chip => size.area ≤ (chip.size types).area).map fun chip =>
    .tooLarge chip.id

/-- Is a size smaller than the one around it on both axes? -/
def isInside (inner outer : Vec) : Bool :=
  leastCoordinate ≤ inner.x && inner.x < outer.x && inner.y < outer.y

/-- All problems of a content of a type of the given size. -/
def problems (c : Content) (size : Vec) (types : TypeLookup) : List Problem :=
  c.unroutedWires ++ c.oversizedChips size types ++
    (c.customChips types).flatMap fun chip =>
      if _h : isInside (chip.size types) size then
        ((types.get chip.type).content.problems (chip.size types) types).map
          (.inside chip.id chip.type)
      else []
termination_by (size.x - leastCoordinate).toNat
decreasing_by
  simp only [isInside, Bool.and_eq_true, decide_eq_true_eq] at _h
  omega

end Content

end LogicBoard
