/-
  LogicBoard.Compile.Order
  ────────────────────────────────
  **THE ORDER OF THE CHIPS OF A TYPE.**

  The chips of a type are evaluated one after the other, so a chip should
  come after the chips that drive it.  Every chip with a wire has a score,
  which grows along the wires; among chips whose drivers have all been placed
  the one with the least score goes first.  Where chips drive each other in a
  loop there is no such order, and they are listed by their scores alone.

  Scores stop growing at the largest number of 64 bits.
-/
import LogicBoard.Compile.Digraph
import LogicBoard.Config.Settings
import LogicBoard.Design.Chip

namespace LogicBoard

/-- The order in which the chips of a type are evaluated. -/
structure Plan where
  /-- The chips with wires, in this order. -/
  order : List Name
  /-- The score of each chip with wires. -/
  scores : Table Name Nat
  /-- The chips without wires, which are left out. -/
  dead : List Name
  /-- The groups of chips that drive each other. -/
  loops : List (List Name)
deriving DecidableEq

/-! ## §1. Scores. -/

/-- The largest score. -/
def largestScore : Nat := 0xFFFFFFFFFFFFFFFF

/-- The sum of two scores, at most the largest score. -/
def addScores (a b : Nat) : Nat := min (a + b) largestScore

namespace Content

/-- The names of the chips with wires. -/
def live (c : Content) : List Name := c.wiredChips.map (·.id)

/-- The names of the chips without wires. -/
def dead (c : Content) : List Name := c.chips.keys.filter (!c.live.contains ·)

/-- Does a wire from elsewhere than the boundary drive an input of the chip? -/
def isFed (c : Content) (owner id : Name) : Bool :=
  (c.wiresInto id).any (·.source.chip ≠ owner)

/-- The scores before the first round: the seed for the chips that other chips drive. -/
def seedScores (c : Content) (owner : Name) (seed : Nat) : Table Name Nat :=
  .ofList (c.live.map fun id => (id, if c.isFed owner id then seed else 0))

/-- The sum of the scores of the chips that drive inputs of a chip, one for each wire. -/
def gain (c : Content) (scores : Table Name Nat) (id : Name) : Nat :=
  ((c.wiresInto id).map fun w => (scores.find? w.source.chip).getD 0).foldl addScores 0

/-- Raises the score of one chip by its gain. -/
def raiseScore (c : Content) (scores : Table Name Nat) (id : Name) : Table Name Nat :=
  match scores.find? id with
  | none => scores
  | some score => scores.insert id (addScores score (c.gain scores id))

/-- The scores after some rounds; in each round every chip in turn is raised. -/
def scoresAfter (c : Content) (scores : Table Name Nat) : Nat → Table Name Nat
  | 0 => scores
  | n + 1 => c.scoresAfter (c.live.foldl c.raiseScore scores) n

/-! ## §2. Plans. -/

/-- The chips with wires and an edge for every wire between two of them. -/
def chipGraph (c : Content) : Digraph Name :=
  c.wires.foldl (fun g w =>
    if c.live.contains w.source.chip && c.live.contains w.target.chip then
      g.addEdge w.source.chip w.target.chip
    else g) ⟨c.live, []⟩

/-- Plans the evaluation of the chips of a type. -/
def plan (c : Content) (owner : Name) (settings : CompileSettings) : Plan :=
  let scores := c.scoresAfter (c.seedScores owner settings.seed) settings.rounds
  let score (id : Name) : Nat := (scores.find? id).getD 0
  let g := c.chipGraph
  let loops := g.cycles
  let order :=
    if loops.isEmpty then g.sourcesFirst score g.nodes.length g.nodes
    else g.nodes.mergeSort fun a b => score a ≤ score b
  ⟨order, scores, c.dead, loops⟩

end Content

end LogicBoard
