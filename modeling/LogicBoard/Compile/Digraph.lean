/-
  LogicBoard.Compile.Digraph
  ────────────────────────────────
  **DIRECTED GRAPHS.**

  The compiler looks at two graphs: chips that drive each other, and chip
  types that contain each other.  Both want their members listed so that
  every node comes after the nodes it points to, or else a group of nodes
  that point at each other.

  A depth-first walk visits the successors of a node in the order in which
  the edges were added; a node is finished once all its successors are.
-/
namespace LogicBoard

universe u

/-- A graph with its nodes and edges in the order in which they were added. -/
structure Digraph (κ : Type u) where
  nodes : List κ
  edges : List (κ × κ)

namespace Digraph

variable {κ : Type u} [DecidableEq κ]

/-! ## §1. Building graphs. -/

/-- Adds a node unless it is there. -/
def addNode (g : Digraph κ) (a : κ) : Digraph κ :=
  if a ∈ g.nodes then g else { g with nodes := g.nodes ++ [a] }

/-- Adds an edge unless it is there. -/
def addEdge (g : Digraph κ) (a b : κ) : Digraph κ :=
  if (a, b) ∈ g.edges then g else { g with edges := g.edges ++ [(a, b)] }

/-- The nodes that a node points to. -/
def successors (g : Digraph κ) (a : κ) : List κ :=
  (g.edges.filter (·.1 = a)).map (·.2)

/-- The graph with all its edges turned around. -/
def reverse (g : Digraph κ) : Digraph κ :=
  { g with edges := g.edges.map fun e => (e.2, e.1) }

/-! ## §2. Depth-first walks. -/

/-- What a walk has seen. -/
structure Walk (κ : Type u) where
  /-- The nodes that were entered, the latest first. -/
  entered : List κ
  /-- The nodes all of whose successors were finished, the latest first. -/
  finished : List κ

/-- What a walk still has to do. -/
inductive Task (κ : Type u) where
  /-- Enter a node unless it was entered before. -/
  | enter (a : κ)
  /-- Finish a node that was entered. -/
  | finish (a : κ)

/-- Counting fewer members after another condition is added. -/
theorem length_filter_lt {a : κ} {entered nodes : List κ} (ha : a ∈ nodes) (hn : a ∉ entered) :
    (nodes.filter (· ∉ a :: entered)).length < (nodes.filter (· ∉ entered)).length := by
  induction nodes with
  | nil => simp at ha
  | cons b rest ih =>
    by_cases hb : b = a
    · subst hb
      have h : rest.countP (· ∉ b :: entered) ≤ rest.countP (· ∉ entered) :=
        List.countP_mono_left fun c _ hc => by simp_all
      simp only [List.countP_eq_length_filter] at h
      simpa [List.filter_cons, hn] using Nat.lt_succ_of_le h
    · have := ih ((List.mem_cons.1 ha).resolve_left (Ne.symm hb))
      by_cases he : b ∈ entered <;> simp_all

/-- Continues a walk with a stack of tasks.  A node that is entered is finished after all its
successors were entered and finished. -/
def walk (g : Digraph κ) (w : Walk κ) : List (Task κ) → Walk κ
  | [] => w
  | .finish a :: stack => walk g { w with finished := a :: w.finished } stack
  | .enter a :: stack =>
    if _new : a ∈ g.nodes ∧ a ∉ w.entered then
      walk g { w with entered := a :: w.entered }
        ((g.successors a).map .enter ++ .finish a :: stack)
    else walk g w stack
termination_by stack => ((g.nodes.filter (· ∉ w.entered)).length, stack.length)
decreasing_by
  · exact Prod.Lex.right _ (by simp)
  · exact Prod.Lex.left _ _ (length_filter_lt _new.1 _new.2)
  · exact Prod.Lex.right _ (by simp)

/-- The walk from some nodes. -/
def walkFrom (g : Digraph κ) (starts : List κ) : Walk κ :=
  g.walk ⟨[], []⟩ (starts.map .enter)

/-- The nodes that can be reached from a node, itself included. -/
def reachable (g : Digraph κ) (a : κ) : List κ := (g.walkFrom [a]).entered

/-! ## §3. Cycles. -/

/-- The nodes that reach a node and are reached from it, in the order of the nodes. -/
def component (g : Digraph κ) (a : κ) : List κ :=
  let after := g.reachable a
  let before := g.reverse.reachable a
  g.nodes.filter fun b => after.contains b && before.contains b

/-- The groups of nodes on common cycles, each once and in the order of the nodes. -/
def cycles (g : Digraph κ) : List (List κ) :=
  g.nodes.filterMap fun a =>
    let c := g.component a
    if c.head? = some a && (c.length > 1 || g.edges.contains (a, a)) then some c else none

/-! ## §4. Orders. -/

/-- Is no node that points to this one still waiting? -/
def isReady (g : Digraph κ) (waiting : List κ) (a : κ) : Bool :=
  g.edges.all fun e => e.2 ≠ a || !waiting.contains e.1

/-- The first item with the least key. -/
def leastBy? (key : κ → Nat) : List κ → Option κ
  | [] => none
  | a :: rest =>
    match leastBy? key rest with
    | none => some a
    | some b => if key b < key a then some b else some a

/-- Lists waiting nodes, each after the nodes that point to it; of those that are ready the one
with the least key goes first. -/
def sourcesFirst (g : Digraph κ) (key : κ → Nat) : Nat → List κ → List κ
  | 0, _ => []
  | n + 1, waiting =>
    match leastBy? key (waiting.filter (g.isReady waiting)) with
    | none => []
    | some a => a :: g.sourcesFirst key n (waiting.erase a)

/-- A node on a cycle, if there is one: a node that points to itself, else a node which one of its
predecessors finished before. -/
def cyclic? (g : Digraph κ) (w : Walk κ) : Option κ :=
  match w.entered.reverse.find? fun a => g.edges.contains (a, a) with
  | some a => some a
  | none =>
    w.finished.find? fun a =>
      let earlier := w.finished.reverse.takeWhile (· ≠ a)
      g.edges.any fun e => e.2 = a && earlier.contains e.1

/-- The nodes, each after the nodes it points to; if that cannot be, a group of nodes that point
at each other. -/
def targetsFirst (g : Digraph κ) : Except (List κ) (List κ) :=
  let w := g.walkFrom g.nodes
  match g.cyclic? w with
  | some a => .error (g.component a)
  | none => .ok w.finished.reverse

end Digraph

end LogicBoard
