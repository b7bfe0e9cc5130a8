/-
  LogicBoard.Compile.Dependencies
  ────────────────────────────────
  **WHICH TYPES A TYPE NEEDS.**

  A composite type needs the composite types of its wired chips; standard
  types are put in place and need nothing.  Chips without wires are left out,
  so it does not matter whether their types are known.
-/
import LogicBoard.Compile.Digraph
import LogicBoard.Compile.Error

namespace LogicBoard

namespace TypeTable

/-! ## §1. The graph of types. -/

/-- A graph of types and the types whose chips are still to be looked at, the next one first. -/
abbrev Discovery := Digraph Name × List Name

/-- Takes note of the type of a wired chip of `owner`. -/
def meet (types : TypeTable) (owner : Name) (d : Discovery) (c : Chip) :
    Except CompileError Discovery :=
  match types.find? c.type with
  | none => .error (.unknownType c.type owner c.id)
  | some t =>
    if t.isComposite then
      .ok ((d.1.addNode c.type).addEdge owner c.type,
        if c.type ∈ d.1.nodes then d.2 else c.type :: d.2)
    else .ok d

/-- Looks at the chips of the types that are still to be looked at.  Every type is looked at once
at most, so the number of types bounds the steps. -/
def discover (types : TypeTable) : Nat → Discovery → Except CompileError (Digraph Name)
  | _, (g, []) => .ok g
  | 0, (g, _) => .ok g
  | fuel + 1, (g, owner :: work) =>
    match types.find? owner with
    | none => types.discover fuel (g, work)
    | some t => do types.discover fuel (← t.content.wiredChips.foldlM (types.meet owner) (g, work))

/-- The composite types that can be reached from a type, with an edge from each to those it
needs. -/
def dependencies (types : TypeTable) (root : Name) : Except CompileError (Digraph Name) :=
  types.discover (types.size + 1) (⟨[root], []⟩, [root])

end TypeTable

/-! ## §2. Reading the graph. -/

/-- The types that a type needs directly, in rising order. -/
def neededDirectly (g : Digraph Name) (type : Name) : List Name :=
  sortedNames (g.successors type)

/-- The types of a graph, each after the types it needs. -/
def buildOrder (g : Digraph Name) : Except CompileError (List Name) :=
  match g.targetsFirst with
  | .ok order => .ok order
  | .error group => .error (.cycle (sortedNames group))

end LogicBoard
