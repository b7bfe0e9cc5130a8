/-
  LogicBoard.Proofs.Compile.PlanOrder
  ────────────────────────────────
  **THE ORDER OF A PLAN.**

  A plan lists every wired chip once.  Where no chips drive each other in a
  loop, a wire between two chips leads to a later one.

  Main statements:
    • `edge_chipGraph` — the edges are the wires between wired chips,
    • `plan_order_perm` — the order is a permutation of the wired chips,
    • `plan_idxOf_lt` — without loops, drivers come first.
-/
import LogicBoard.Proofs.Design.Content
import LogicBoard.Proofs.Digraph.SourcesFirst

namespace LogicBoard

/-- The score that a plan gives to a chip. -/
def Plan.score (p : Plan) (id : Name) : Nat := (p.scores.find? id).getD 0

namespace Content

/-! ## §1. The graph of the chips. -/

/-- Adds the edge of a wire if both its ends are on wired chips. -/
def addWire (c : Content) (g : Digraph Name) (w : Wire) : Digraph Name :=
  if c.live.contains w.source.chip && c.live.contains w.target.chip then
    g.addEdge w.source.chip w.target.chip
  else g

theorem chipGraph_eq (c : Content) : c.chipGraph = c.wires.foldl c.addWire ⟨c.live, []⟩ := rfl

/-- What the wires looked at so far have made of the graph. -/
structure Drawn (c : Content) (wires : List Wire) (g : Digraph Name) : Prop where
  proper : g.Proper
  nodes : g.nodes = c.live
  edge_iff : ∀ a b, g.Edge a b ↔
    (∃ w ∈ wires, w.source.chip = a ∧ w.target.chip = b) ∧ a ∈ c.live ∧ b ∈ c.live

theorem Drawn.initial (c : Content) : Drawn c [] ⟨c.live, []⟩ where
  proper := ⟨c.live_nodup, List.nodup_nil, fun h => by simp [Digraph.Edge] at h,
    fun h => by simp [Digraph.Edge] at h⟩
  nodes := rfl
  edge_iff := by simp [Digraph.Edge]

theorem Drawn.addWire {c : Content} {wires : List Wire} {g : Digraph Name} (w : Wire)
    (h : Drawn c wires g) : Drawn c (wires ++ [w]) (c.addWire g w) := by
  have hmem : ∀ a b, (∃ v ∈ wires ++ [w], v.source.chip = a ∧ v.target.chip = b) ↔
      (∃ v ∈ wires, v.source.chip = a ∧ v.target.chip = b) ∨
        w.source.chip = a ∧ w.target.chip = b := by
    intro a b
    simp only [List.mem_append, List.mem_singleton, or_and_right, exists_or, exists_eq_left]
  unfold Content.addWire
  split
  · rename_i hends
    rw [Bool.and_eq_true, List.contains_iff_mem, List.contains_iff_mem] at hends
    refine ⟨?_, ?_, fun a b => ?_⟩
    · refine h.proper.addEdge ?_ ?_
      · exact h.nodes ▸ hends.1
      · exact h.nodes ▸ hends.2
    · rw [Digraph.addEdge_nodes]
      exact h.nodes
    · rw [Digraph.edge_addEdge, h.edge_iff, hmem]
      constructor
      · rintro (⟨hw, hlive⟩ | ⟨rfl, rfl⟩)
        · exact ⟨Or.inl hw, hlive⟩
        · exact ⟨Or.inr ⟨rfl, rfl⟩, hends⟩
      · rintro ⟨hw | ⟨rfl, rfl⟩, hlive⟩
        · exact Or.inl ⟨hw, hlive⟩
        · exact Or.inr ⟨rfl, rfl⟩
  · rename_i hends
    rw [Bool.and_eq_true, List.contains_iff_mem, List.contains_iff_mem] at hends
    refine ⟨h.proper, h.nodes, fun a b => ?_⟩
    rw [h.edge_iff, hmem]
    constructor
    · rintro ⟨hw, hlive⟩
      exact ⟨Or.inl hw, hlive⟩
    · rintro ⟨hw | ⟨rfl, rfl⟩, hlive⟩
      · exact ⟨hw, hlive⟩
      · exact absurd hlive hends

theorem drawn_chipGraph (c : Content) : Drawn c c.wires c.chipGraph := by
  -- By induction on the wires that are left, for any wires drawn before.
  have hfold : ∀ (rest wires : List Wire) (g : Digraph Name), Drawn c wires g →
      Drawn c (wires ++ rest) (rest.foldl c.addWire g) := by
    intro rest
    induction rest with
    | nil =>
      intro wires g h
      simpa using h
    | cons w rest ih =>
      intro wires g h
      have := ih (wires ++ [w]) (c.addWire g w) (h.addWire w)
      simpa using this
  rw [chipGraph_eq]
  simpa using hfold c.wires [] _ (Drawn.initial c)

theorem chipGraph_proper (c : Content) : c.chipGraph.Proper := (drawn_chipGraph c).proper

theorem chipGraph_nodes (c : Content) : c.chipGraph.nodes = c.live := (drawn_chipGraph c).nodes

/-- The edges are the wires between wired chips. -/
theorem edge_chipGraph {c : Content} {a b : Name} :
    c.chipGraph.Edge a b ↔
      (∃ w ∈ c.wires, w.source.chip = a ∧ w.target.chip = b) ∧ a ∈ c.live ∧ b ∈ c.live :=
  (drawn_chipGraph c).edge_iff a b

/-- A chip at an end of a wire is one with wires. -/
theorem live_of_contains {c : Content} {w : Wire} (hw : w ∈ c.wires) {id : Name}
    (hend : w.source.chip = id ∨ w.target.chip = id) (hid : c.chips.contains id = true) :
    id ∈ c.live := by
  obtain ⟨chip, hchip⟩ := contains_iff_chip?.1 hid
  obtain rfl := id_of_chip? hchip
  exact mem_live.2 ⟨chip, ⟨hchip, w, hw, hend⟩, rfl⟩

theorem contains_of_live {c : Content} {id : Name} (h : id ∈ c.live) :
    c.chips.contains id = true := by
  obtain ⟨chip, hwired, rfl⟩ := mem_live.1 h
  exact contains_iff_chip?.2 ⟨chip, hwired.1⟩

/-! ## §2. Plans. -/

/-- Without loops, chips are taken once all that drive them are. -/
theorem plan_order_of_loops {c : Content} {owner : Name} {settings : CompileSettings}
    (h : (c.plan owner settings).loops = []) :
    (c.plan owner settings).order = c.chipGraph.sourcesFirst (c.plan owner settings).score
      c.chipGraph.nodes.length c.chipGraph.nodes := by
  have hcycles : c.chipGraph.cycles.isEmpty = true := List.isEmpty_iff.2 h
  simp only [plan, hcycles, if_true]
  rfl

/-- With loops, the chips are merely sorted. -/
theorem plan_order_of_loops_ne {c : Content} {owner : Name} {settings : CompileSettings}
    (h : (c.plan owner settings).loops ≠ []) :
    (c.plan owner settings).order = c.live.mergeSort fun a b =>
      (c.plan owner settings).score a ≤ (c.plan owner settings).score b := by
  have hcycles : ¬ c.chipGraph.cycles.isEmpty = true := fun he => h (List.isEmpty_iff.1 he)
  rw [← chipGraph_nodes]
  simp only [plan, hcycles]
  rfl

/-- The order is a permutation of the wired chips. -/
theorem plan_order_perm (c : Content) (owner : Name) (settings : CompileSettings) :
    (c.plan owner settings).order.Perm c.live := by
  by_cases h : (c.plan owner settings).loops = []
  · have hac : c.chipGraph.Acyclic := (Digraph.cycles_eq_nil_iff (chipGraph_proper c)).1 h
    rw [plan_order_of_loops h, ← chipGraph_nodes]
    exact Digraph.sourcesFirst_perm hac _ _ _ (Nat.le_refl _)
  · rw [plan_order_of_loops_ne h]
    exact List.mergeSort_perm _ _

theorem plan_order_nodup (c : Content) (owner : Name) (settings : CompileSettings) :
    (c.plan owner settings).order.Nodup :=
  (plan_order_perm c owner settings).nodup_iff.2 c.live_nodup

/-- The chips of the order are the wired ones. -/
theorem mem_plan_order {c : Content} {owner : Name} {settings : CompileSettings} {id : Name} :
    id ∈ (c.plan owner settings).order ↔ ∃ chip, c.Wired chip ∧ chip.id = id :=
  (plan_order_perm c owner settings).mem_iff.trans mem_live

/-- Without loops, a wire between two chips leads to a later one. -/
theorem plan_idxOf_lt {c : Content} {owner : Name} {settings : CompileSettings}
    (h : (c.plan owner settings).loops = []) {w : Wire} (hw : w ∈ c.wires)
    (hsource : c.chips.contains w.source.chip = true)
    (htarget : c.chips.contains w.target.chip = true) :
    (c.plan owner settings).order.idxOf w.source.chip
      < (c.plan owner settings).order.idxOf w.target.chip := by
  have hedge : c.chipGraph.Edge w.source.chip w.target.chip :=
    edge_chipGraph.2 ⟨⟨w, hw, rfl, rfl⟩, live_of_contains hw (Or.inl rfl) hsource,
      live_of_contains hw (Or.inr rfl) htarget⟩
  have hac : c.chipGraph.Acyclic := (Digraph.cycles_eq_nil_iff (chipGraph_proper c)).1 h
  rw [plan_order_of_loops h]
  exact Digraph.idxOf_lt_of_sourcesFirst (chipGraph_proper c) hac _ hedge

end Content

end LogicBoard
