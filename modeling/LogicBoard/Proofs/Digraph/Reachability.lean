/-
  LogicBoard.Proofs.Digraph.Reachability
  ────────────────────────────────
  **WHAT A WALK ENTERS, AND GROUPS OF NODES ON COMMON CYCLES.**

  Main statements:
    • `mem_walkFrom_entered` — a walk enters exactly the nodes that can be
      reached from its starts,
    • `mem_component` — the component of a node holds exactly the nodes that
      reach it and are reached from it,
    • `mem_cycles` — the listed groups are exactly the components of the
      nodes on cycles, so there are none exactly if the graph is acyclic.
-/
import Mathlib.Logic.Relation
import Mathlib.Data.List.Nodup
import Mathlib.Data.List.Perm.Subperm
import LogicBoard.Compile.Digraph

set_option linter.unusedSectionVars false

namespace LogicBoard.Digraph

open Relation

universe u

variable {κ : Type u} [DecidableEq κ]

/-! ## §1. Edges, reachability and cycles. -/

/-- Does an edge lead from one node to the other? -/
def Edge (g : Digraph κ) (a b : κ) : Prop := (a, b) ∈ g.edges

/-- Can one node be reached from the other along edges? -/
def Reaches (g : Digraph κ) : κ → κ → Prop := ReflTransGen g.Edge

/-- Does the node reach itself along at least one edge? -/
def OnCycle (g : Digraph κ) (a : κ) : Prop := TransGen g.Edge a a

/-- No node is on a cycle. -/
def Acyclic (g : Digraph κ) : Prop := ∀ a, ¬ g.OnCycle a

/-- Nodes and edges are listed once, and edges join nodes. -/
structure Proper (g : Digraph κ) : Prop where
  nodup : g.nodes.Nodup
  edges_nodup : g.edges.Nodup
  source_mem : ∀ {a b}, g.Edge a b → a ∈ g.nodes
  target_mem : ∀ {a b}, g.Edge a b → b ∈ g.nodes

theorem Proper.mem_of_reaches {g : Digraph κ} (hg : g.Proper) {a b : κ} (ha : a ∈ g.nodes)
    (h : g.Reaches a b) : b ∈ g.nodes := by
  induction h with
  | refl => exact ha
  | tail _ hedge _ => exact hg.target_mem hedge

theorem Proper.mem_of_onCycle {g : Digraph κ} (hg : g.Proper) {a : κ} (h : g.OnCycle a) :
    a ∈ g.nodes := by
  obtain ⟨b, _, hba⟩ := TransGen.tail'_iff.1 h
  exact hg.target_mem hba

theorem mem_successors {g : Digraph κ} {a b : κ} : b ∈ g.successors a ↔ g.Edge a b := by
  simp only [successors, List.mem_map, List.mem_filter, decide_eq_true_eq, Edge]
  constructor
  · rintro ⟨e, ⟨he, rfl⟩, rfl⟩
    exact he
  · intro h
    exact ⟨(a, b), ⟨h, rfl⟩, rfl⟩

theorem edge_reverse {g : Digraph κ} {a b : κ} : g.reverse.Edge a b ↔ g.Edge b a := by
  simp only [Edge, reverse, List.mem_map]
  constructor
  · rintro ⟨e, he, h⟩
    obtain ⟨rfl, rfl⟩ := Prod.mk.inj h
    exact he
  · intro h
    exact ⟨(b, a), h, rfl⟩

theorem reaches_reverse {g : Digraph κ} {a b : κ} : g.reverse.Reaches a b ↔ g.Reaches b a := by
  have h : g.reverse.Edge = Function.swap g.Edge := by
    funext a b
    exact propext edge_reverse
  unfold Reaches
  rw [h, reflTransGen_swap]

/-- Where no later item is related to an earlier one, related items stand in this order. -/
theorem idxOf_lt_of_pairwise {R : κ → κ → Prop} {l : List κ} {a b : κ}
    (hord : l.Pairwise fun x y => ¬ R y x) (hirr : ¬ R a a) (ha : a ∈ l) (hb : b ∈ l)
    (hab : R a b) : l.idxOf a < l.idxOf b := by
  have hia := List.idxOf_lt_length_of_mem ha
  have hib := List.idxOf_lt_length_of_mem hb
  by_contra hle
  -- Otherwise the pair stands the other way round, or the two are one item.
  rcases Nat.lt_or_ge (l.idxOf b) (l.idxOf a) with hlt | hge
  · have hnot := List.pairwise_iff_getElem.1 hord _ _ hib hia hlt
    rw [List.getElem_idxOf, List.getElem_idxOf] at hnot
    exact hnot hab
  · have heq : l.idxOf a = l.idxOf b := by omega
    obtain rfl : a = b := (List.idxOf_inj ha).1 heq
    exact hirr hab

/-! ## §2. Building graphs. -/

theorem mem_addNode_nodes {g : Digraph κ} {a b : κ} :
    b ∈ (g.addNode a).nodes ↔ b ∈ g.nodes ∨ b = a := by
  unfold addNode
  split
  · rename_i ha
    constructor
    · exact Or.inl
    · rintro (h | rfl)
      · exact h
      · exact ha
  · simp

@[simp] theorem addNode_edges (g : Digraph κ) (a : κ) : (g.addNode a).edges = g.edges := by
  unfold addNode
  split <;> rfl

@[simp] theorem addEdge_nodes (g : Digraph κ) (a b : κ) : (g.addEdge a b).nodes = g.nodes := by
  unfold addEdge
  split <;> rfl

theorem edge_addEdge {g : Digraph κ} {a b c d : κ} :
    (g.addEdge a b).Edge c d ↔ g.Edge c d ∨ c = a ∧ d = b := by
  unfold addEdge Edge
  split
  · rename_i hab
    constructor
    · exact Or.inl
    · rintro (h | ⟨rfl, rfl⟩)
      · exact h
      · exact hab
  · simp

theorem Proper.addNode {g : Digraph κ} (hg : g.Proper) (a : κ) : (g.addNode a).Proper := by
  refine ⟨?_, ?_, ?_, ?_⟩
  · unfold Digraph.addNode
    split
    · exact hg.nodup
    · rename_i ha
      exact hg.nodup.append (List.nodup_singleton a) (by simpa using ha)
  · rw [addNode_edges]
    exact hg.edges_nodup
  · intro b c h
    have h' : g.Edge b c := by simpa [Edge] using h
    exact mem_addNode_nodes.2 (Or.inl (hg.source_mem h'))
  · intro b c h
    have h' : g.Edge b c := by simpa [Edge] using h
    exact mem_addNode_nodes.2 (Or.inl (hg.target_mem h'))

theorem Proper.addEdge {g : Digraph κ} (hg : g.Proper) {a b : κ} (ha : a ∈ g.nodes)
    (hb : b ∈ g.nodes) : (g.addEdge a b).Proper := by
  refine ⟨?_, ?_, ?_, ?_⟩
  · rw [addEdge_nodes]
    exact hg.nodup
  · unfold Digraph.addEdge
    split
    · exact hg.edges_nodup
    · rename_i hab
      exact hg.edges_nodup.append (List.nodup_singleton _) (by simpa using hab)
  · intro c d h
    rw [addEdge_nodes]
    rcases edge_addEdge.1 h with h | ⟨rfl, rfl⟩
    · exact hg.source_mem h
    · exact ha
  · intro c d h
    rw [addEdge_nodes]
    rcases edge_addEdge.1 h with h | ⟨rfl, rfl⟩
    · exact hg.target_mem h
    · exact hb

/-! ## §3. What a walk enters. -/

/-- What every step of a walk keeps holds of the whole walk, with nothing left to do. -/
theorem walk_induction {g : Digraph κ} {P : Walk κ → List (Task κ) → Prop}
    (finish : ∀ w a stack, P w (.finish a :: stack) →
      P { w with finished := a :: w.finished } stack)
    (enter : ∀ w a stack, a ∈ g.nodes → a ∉ w.entered → P w (.enter a :: stack) →
      P { w with entered := a :: w.entered }
        ((g.successors a).map .enter ++ .finish a :: stack))
    (skip : ∀ w a stack, ¬ (a ∈ g.nodes ∧ a ∉ w.entered) → P w (.enter a :: stack) → P w stack)
    (w : Walk κ) (stack : List (Task κ)) (h : P w stack) : P (g.walk w stack) [] := by
  -- The cases are the tasks on top of the stack; a node is entered or skipped.
  fun_induction walk g w stack with
  | case1 w => exact h
  | case2 w a stack ih => exact ih (finish w a stack h)
  | case3 w a stack hnew ih => exact ih (enter w a stack hnew.1 hnew.2 h)
  | case4 w a stack hold ih => exact ih (skip w a stack hold h)

/-- The invariant behind what a walk enters: all of it can be reached from the starts, and what
the entered nodes point to is entered or about to be. -/
structure Explored (g : Digraph κ) (starts : List κ) (w : Walk κ) (stack : List (Task κ)) :
    Prop where
  entered_sound : ∀ a ∈ w.entered, ∃ s ∈ starts, g.Reaches s a
  stack_sound : ∀ a, .enter a ∈ stack → ∃ s ∈ starts, g.Reaches s a
  starts_seen : ∀ s ∈ starts, s ∈ g.nodes → s ∈ w.entered ∨ .enter s ∈ stack
  closed : ∀ a ∈ w.entered, ∀ b, g.Edge a b → b ∈ g.nodes → b ∈ w.entered ∨ .enter b ∈ stack

theorem Explored.initial (g : Digraph κ) (starts : List κ) :
    Explored g starts ⟨[], []⟩ (starts.map .enter) where
  entered_sound := by simp
  stack_sound := by
    intro a ha
    exact ⟨a, by simpa using ha, ReflTransGen.refl⟩
  starts_seen := by
    intro s hs _
    exact Or.inr (List.mem_map_of_mem hs)
  closed := by simp

theorem Explored.finish {g : Digraph κ} {starts : List κ} {w : Walk κ} {a : κ}
    {stack : List (Task κ)} (h : Explored g starts w (.finish a :: stack)) :
    Explored g starts { w with finished := a :: w.finished } stack where
  entered_sound := h.entered_sound
  stack_sound := fun b hb => h.stack_sound b (List.mem_cons_of_mem _ hb)
  starts_seen := fun s hs hn => (h.starts_seen s hs hn).imp id (by simp)
  closed := fun b hb c hbc hc => (h.closed b hb c hbc hc).imp id (by simp)

theorem Explored.enter {g : Digraph κ} {starts : List κ} {w : Walk κ} {a : κ}
    {stack : List (Task κ)} (h : Explored g starts w (.enter a :: stack)) :
    Explored g starts { w with entered := a :: w.entered }
      ((g.successors a).map .enter ++ .finish a :: stack) where
  entered_sound := by
    intro b hb
    rcases List.mem_cons.1 hb with rfl | hb
    · exact h.stack_sound b List.mem_cons_self
    · exact h.entered_sound b hb
  stack_sound := by
    intro b hb
    rcases List.mem_append.1 hb with hb | hb
    · obtain ⟨c, hc, hcb⟩ := List.mem_map.1 hb
      obtain rfl : c = b := by simpa using hcb
      obtain ⟨s, hs, hsa⟩ := h.stack_sound a List.mem_cons_self
      exact ⟨s, hs, hsa.tail (mem_successors.1 hc)⟩
    · exact h.stack_sound b (List.mem_cons_of_mem _ (by simpa using hb))
  starts_seen := by
    intro s hs hn
    -- A start that waited on top is the node that is entered now.
    rcases h.starts_seen s hs hn with h' | h'
    · exact Or.inl (List.mem_cons_of_mem _ h')
    · rcases List.mem_cons.1 h' with h' | h'
      · obtain rfl : s = a := by simpa using h'
        exact Or.inl List.mem_cons_self
      · exact Or.inr (List.mem_append_right _ (List.mem_cons_of_mem _ h'))
  closed := by
    intro b hb c hbc hc
    rcases List.mem_cons.1 hb with rfl | hb
    · -- What the new node points to has just been put on the stack.
      exact Or.inr (List.mem_append_left _ (List.mem_map_of_mem (mem_successors.2 hbc)))
    · rcases h.closed b hb c hbc hc with h' | h'
      · exact Or.inl (List.mem_cons_of_mem _ h')
      · rcases List.mem_cons.1 h' with h' | h'
        · obtain rfl : c = a := by simpa using h'
          exact Or.inl List.mem_cons_self
        · exact Or.inr (List.mem_append_right _ (List.mem_cons_of_mem _ h'))

theorem Explored.skip {g : Digraph κ} {starts : List κ} {w : Walk κ} {a : κ}
    {stack : List (Task κ)} (hold : ¬ (a ∈ g.nodes ∧ a ∉ w.entered))
    (h : Explored g starts w (.enter a :: stack)) : Explored g starts w stack where
  entered_sound := h.entered_sound
  stack_sound := fun b hb => h.stack_sound b (List.mem_cons_of_mem _ hb)
  starts_seen := by
    intro s hs hn
    rcases h.starts_seen s hs hn with h' | h'
    · exact Or.inl h'
    · rcases List.mem_cons.1 h' with h' | h'
      · obtain rfl : s = a := by simpa using h'
        exact Or.inl (by_contra fun hne => hold ⟨hn, hne⟩)
      · exact Or.inr h'
  closed := by
    intro b hb c hbc hc
    rcases h.closed b hb c hbc hc with h' | h'
    · exact Or.inl h'
    · rcases List.mem_cons.1 h' with h' | h'
      · -- A node of the graph is skipped only if it was entered before.
        obtain rfl : c = a := by simpa using h'
        exact Or.inl (by_contra fun hne => hold ⟨hc, hne⟩)
      · exact Or.inr h'

theorem explored_walkFrom (g : Digraph κ) (starts : List κ) :
    Explored g starts (g.walkFrom starts) [] :=
  walk_induction (fun _ _ _ h => h.finish) (fun _ _ _ _ _ h => h.enter)
    (fun _ _ _ hold h => h.skip hold) _ _ (Explored.initial g starts)

/-- A walk enters exactly the nodes that can be reached from its starts. -/
theorem mem_walkFrom_entered {g : Digraph κ} (hg : g.Proper) {starts : List κ}
    (hs : ∀ s ∈ starts, s ∈ g.nodes) {a : κ} :
    a ∈ (g.walkFrom starts).entered ↔ ∃ s ∈ starts, g.Reaches s a := by
  have h := explored_walkFrom g starts
  constructor
  · exact h.entered_sound a
  · rintro ⟨s, hmem, hsa⟩
    -- Along the way from the start: nothing is left on the stack to be entered.
    induction hsa with
    | refl => exact (h.starts_seen s hmem (hs s hmem)).resolve_right (by simp)
    | tail _ hbc ih => exact (h.closed _ ih _ hbc (hg.target_mem hbc)).resolve_right (by simp)

theorem mem_reachable {g : Digraph κ} (hg : g.Proper) {a b : κ} (ha : a ∈ g.nodes) :
    b ∈ g.reachable a ↔ g.Reaches a b := by
  unfold reachable
  rw [mem_walkFrom_entered hg (by simpa using ha)]
  simp

/-! ## §4. Components and cycles. -/

theorem Proper.reverse {g : Digraph κ} (hg : g.Proper) : g.reverse.Proper := by
  refine ⟨hg.nodup, ?_, ?_, ?_⟩
  · refine hg.edges_nodup.map fun e f h => ?_
    obtain ⟨h₁, h₂⟩ := Prod.mk.inj h
    exact Prod.ext h₂ h₁
  · intro a b h
    exact hg.target_mem (edge_reverse.1 h)
  · intro a b h
    exact hg.source_mem (edge_reverse.1 h)

/-- The component of a node holds exactly the nodes that reach it and are reached from it. -/
theorem mem_component {g : Digraph κ} (hg : g.Proper) {a b : κ} (ha : a ∈ g.nodes) :
    b ∈ g.component a ↔ g.Reaches a b ∧ g.Reaches b a := by
  -- What reaches a node is what the reversed graph leads to from it.
  have hrev : b ∈ g.reverse.reachable a ↔ g.Reaches b a := by
    rw [mem_reachable hg.reverse (show a ∈ g.reverse.nodes from ha), reaches_reverse]
  simp only [component, List.mem_filter, Bool.and_eq_true, List.contains_iff_mem,
    mem_reachable hg ha, hrev]
  constructor
  · exact And.right
  · intro h
    exact ⟨hg.mem_of_reaches ha h.1, h⟩

theorem self_mem_component {g : Digraph κ} (hg : g.Proper) {a : κ} (ha : a ∈ g.nodes) :
    a ∈ g.component a :=
  (mem_component hg ha).2 ⟨ReflTransGen.refl, ReflTransGen.refl⟩

/-- A list of several items that does not repeat any has one besides a given one. -/
theorem exists_mem_ne {l : List κ} (hl : l.Nodup) (hlong : 1 < l.length) (a : κ) :
    ∃ b ∈ l, b ≠ a := by
  by_contra hall
  push Not at hall
  have hsub : l ⊆ [a] := fun b hb => List.mem_singleton.2 (hall b hb)
  have hle : l.length ≤ 1 := (List.subperm_of_subset hl hsub).length_le
  omega

theorem component_nodup {g : Digraph κ} (hg : g.Proper) (a : κ) : (g.component a).Nodup :=
  hg.nodup.filter _

/-- The members of a component have one component, listed in one order. -/
theorem component_eq_of_mem {g : Digraph κ} (hg : g.Proper) {a b : κ} (ha : a ∈ g.nodes)
    (hb : b ∈ g.component a) : g.component b = g.component a := by
  obtain ⟨hab, hba⟩ := (mem_component hg ha).1 hb
  have hbn : b ∈ g.nodes := hg.mem_of_reaches ha hab
  have hsame : ∀ c, c ∈ g.component b ↔ c ∈ g.component a := by
    intro c
    rw [mem_component hg ha, mem_component hg hbn]
    constructor
    · rintro ⟨hbc, hcb⟩
      exact ⟨hab.trans hbc, hcb.trans hba⟩
    · rintro ⟨hac, hca⟩
      exact ⟨hba.trans hac, hca.trans hab⟩
  -- Both lists are cut out of the nodes, so equal membership makes them equal.
  refine List.filter_congr fun c hc => ?_
  have := hsame c
  simp only [component, List.mem_filter, hc, true_and] at this
  exact Bool.eq_iff_iff.2 this

/-- A node is on a cycle exactly if it points to itself or shares its component. -/
theorem onCycle_iff {g : Digraph κ} (hg : g.Proper) {a : κ} (ha : a ∈ g.nodes) :
    g.OnCycle a ↔ 1 < (g.component a).length ∨ g.Edge a a := by
  constructor
  · intro h
    -- The cycle leaves the node for itself or for another member of the component.
    obtain ⟨b, hab, hba⟩ := TransGen.head'_iff.1 h
    by_cases hb : b = a
    · exact Or.inr (hb ▸ hab)
    · have hmem : b ∈ g.component a :=
        (mem_component hg ha).2 ⟨ReflTransGen.single hab, hba⟩
      have hsub : [a, b] ⊆ g.component a := by
        simp [self_mem_component hg ha, hmem]
      have hnd : [a, b].Nodup := by simp [Ne.symm hb]
      exact Or.inl ((List.subperm_of_subset hnd hsub).length_le)
  · rintro (h | h)
    · obtain ⟨b, hb, hne⟩ := exists_mem_ne (component_nodup hg a) h a
      obtain ⟨hab, hba⟩ := (mem_component hg ha).1 hb
      have hab' : TransGen g.Edge a b := (reflTransGen_iff_eq_or_transGen.1 hab).resolve_left hne
      exact hab'.trans_left hba
    · exact TransGen.single h

/-- The listed groups are exactly the components of the nodes on cycles. -/
theorem mem_cycles {g : Digraph κ} (hg : g.Proper) {c : List κ} :
    c ∈ g.cycles ↔ ∃ a ∈ g.nodes, g.OnCycle a ∧ c = g.component a := by
  simp only [cycles, List.mem_filterMap, Option.ite_none_right_eq_some, Option.some.injEq,
    Bool.and_eq_true, Bool.or_eq_true, decide_eq_true_eq, List.contains_iff_mem]
  constructor
  · rintro ⟨a, ha, ⟨-, hlong⟩, rfl⟩
    exact ⟨a, ha, (onCycle_iff hg ha).2 hlong, rfl⟩
  · rintro ⟨a, ha, hcyc, rfl⟩
    -- The group is listed at its first member.
    obtain ⟨b, rest, hbr⟩ := List.exists_cons_of_ne_nil
      (List.ne_nil_of_mem (self_mem_component hg ha))
    have hb : b ∈ g.component a := hbr ▸ List.mem_cons_self
    have hbn : b ∈ g.nodes := List.mem_of_mem_filter hb
    have heq : g.component b = g.component a := component_eq_of_mem hg ha hb
    obtain ⟨hab, hba⟩ := (mem_component hg ha).1 hb
    have hcyc' : g.OnCycle b := (hcyc.trans_left hab).trans_right hba
    refine ⟨b, hbn, ⟨?_, (onCycle_iff hg hbn).1 hcyc'⟩, heq⟩
    rw [heq, hbr]
    rfl

theorem cycles_eq_nil_iff {g : Digraph κ} (hg : g.Proper) : g.cycles = [] ↔ g.Acyclic := by
  constructor
  · intro h a ha
    have : g.component a ∈ g.cycles :=
      (mem_cycles hg).2 ⟨a, hg.mem_of_onCycle ha, ha, rfl⟩
    rw [h] at this
    exact absurd this (by simp)
  · intro h
    refine List.eq_nil_iff_forall_not_mem.2 fun c hc => ?_
    obtain ⟨a, -, hcyc, -⟩ := (mem_cycles hg).1 hc
    exact h a hcyc

end LogicBoard.Digraph
