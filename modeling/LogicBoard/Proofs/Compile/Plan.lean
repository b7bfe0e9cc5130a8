/-
  LogicBoard.Proofs.Compile.Plan
  ────────────────────────────────
  **WHAT A PLAN SAYS.**

  A plan divides the chips of a type into those with wires and those without.
  It names the groups of chips that drive each other; if there are none, every
  chip comes after all that drive it, and whenever several chips could be next
  the one with the least score is, names deciding between equal scores.  With
  groups, scores and names alone decide.

  Main statements:
    • `contains_scores_plan` — exactly the chips with wires have scores,
    • `mem_loops_plan` — the groups are the strongly connected components
      with more than one chip or with a wire from a chip to itself,
    • `isPlan_plan` — all that a plan is to say.
-/
import LogicBoard.Proofs.Compile.PlanOrder
import LogicBoard.Proofs.Digraph.Greedy

namespace LogicBoard.Content

open Relation

variable {c : Content} {owner : Name} {settings : CompileSettings}

/-! ## §1. Chips that drive each other. -/

/-- A wire leads from one chip of the content to the other one, or back to the same chip. -/
def Drives (c : Content) (a b : Name) : Prop :=
  c.chips.contains a = true ∧ c.chips.contains b = true ∧
    ∃ w ∈ c.wires, w.source.chip = a ∧ w.target.chip = b

/-- The chips that some chip reaches along wires and that reach it, in order; there are several,
or a wire leads from the chip to itself. -/
def IsLoop (c : Content) (group : List Name) : Prop :=
  group.Pairwise (· < ·) ∧ ∃ a ∈ group,
    (∀ b, b ∈ group ↔ ReflTransGen c.Drives a b ∧ ReflTransGen c.Drives b a) ∧
      (1 < group.length ∨ c.Drives a a)

/-- The names of chips with wires are in order. -/
theorem live_rising (c : Content) : c.live.Pairwise (· < ·) := by
  rw [live_eq_filter]
  exact c.chips.keys_rising.filter _

/-- The edges between chips are the wires between them. -/
theorem edge_iff_drives {a b : Name} : c.chipGraph.Edge a b ↔ c.Drives a b := by
  rw [edge_chipGraph]
  constructor
  · rintro ⟨hwire, ha, hb⟩
    exact ⟨contains_of_live ha, contains_of_live hb, hwire⟩
  · rintro ⟨ha, hb, w, hw, hsource, htarget⟩
    exact ⟨⟨w, hw, hsource, htarget⟩, live_of_contains hw (Or.inl hsource) ha,
      live_of_contains hw (Or.inr htarget) hb⟩

theorem reaches_iff_drives {a b : Name} :
    c.chipGraph.Reaches a b ↔ ReflTransGen c.Drives a b := by
  have hedge : c.chipGraph.Edge = c.Drives := by
    funext a b
    exact propext edge_iff_drives
  unfold Digraph.Reaches
  rw [hedge]

/-! ## §2. Groups. -/

theorem chipGraph_rising (c : Content) : c.chipGraph.nodes.Pairwise (· < ·) := by
  rw [chipGraph_nodes]
  exact c.live_rising

/-- The component of a chip on a cycle is a group of chips that drive each other. -/
theorem isLoop_component {a : Name} (ha : a ∈ c.chipGraph.nodes) (h : c.chipGraph.OnCycle a) :
    c.IsLoop (c.chipGraph.component a) := by
  have hg := chipGraph_proper c
  have hrising := Digraph.component_rising c.chipGraph_rising a
  refine ⟨hrising, a, Digraph.self_mem_component hg ha, ?_, ?_⟩
  · intro b
    rw [Digraph.mem_component hg ha, reaches_iff_drives, reaches_iff_drives]
  · rw [← edge_iff_drives]
    exact (Digraph.onCycle_iff hg ha).1 h

/-- A chip in a group of several, or with a wire to itself, is a chip with wires. -/
theorem mem_nodes_of_long {group : List Name} (hrising : group.Pairwise (· < ·)) {a : Name}
    (hmem : ∀ b, b ∈ group ↔ ReflTransGen c.Drives a b ∧ ReflTransGen c.Drives b a)
    (hlong : 1 < group.length ∨ c.Drives a a) : a ∈ c.chipGraph.nodes := by
  have hg := chipGraph_proper c
  rcases hlong with hlong | hself
  · -- Another member of the group is reached along a wire, which begins at the chip.
    obtain ⟨b, hb, hne⟩ := Digraph.exists_mem_ne (Digraph.nodup_of_rising hrising) hlong a
    have hway : TransGen c.Drives a b :=
      (reflTransGen_iff_eq_or_transGen.1 ((hmem b).1 hb).1).resolve_left hne
    obtain ⟨d, hd, -⟩ := TransGen.head'_iff.1 hway
    exact hg.source_mem (edge_iff_drives.2 hd)
  · exact hg.source_mem (edge_iff_drives.2 hself)

/-- The groups are the strongly connected components with more than one chip or with a wire from a
chip to itself. -/
theorem mem_loops_plan {group : List Name} :
    group ∈ (c.plan owner settings).loops ↔ c.IsLoop group := by
  have hg := chipGraph_proper c
  show group ∈ c.chipGraph.cycles ↔ _
  rw [Digraph.mem_cycles hg]
  constructor
  · rintro ⟨a, ha, hcycle, rfl⟩
    exact isLoop_component ha hcycle
  · rintro ⟨hrising, a, -, hmem, hlong⟩
    have hnode := mem_nodes_of_long hrising hmem hlong
    -- Two lists in order with the same members are equal.
    have heq : group = c.chipGraph.component a := by
      refine hrising.eq_of_mem_iff (Digraph.component_rising c.chipGraph_rising a) fun b => ?_
      rw [hmem, Digraph.mem_component hg hnode, reaches_iff_drives, reaches_iff_drives]
    refine ⟨a, hnode, (Digraph.onCycle_iff hg hnode).2 ?_, heq⟩
    rw [← heq, edge_iff_drives]
    exact hlong

/-! ## §3. Scores. -/

theorem contains_raiseScore (c : Content) (scores : Table Name Nat) (id id' : Name) :
    (c.raiseScore scores id).contains id' = scores.contains id' := by
  unfold raiseScore
  cases h : scores.find? id with
  | none => rfl
  | some score =>
    unfold Table.contains
    rw [Table.find?_insert]
    split
    · rename_i heq
      subst heq
      rw [h]
      rfl
    · rfl

/-- Raising scores gives no chip a first score and takes none away. -/
theorem contains_scoresAfter (c : Content) (id : Name) (rounds : Nat) :
    ∀ scores, (c.scoresAfter scores rounds).contains id = scores.contains id := by
  have hround : ∀ (ids : List Name) (scores : Table Name Nat),
      (ids.foldl c.raiseScore scores).contains id = scores.contains id := by
    intro ids
    induction ids with
    | nil => intro scores; rfl
    | cons first rest ih =>
      intro scores
      rw [List.foldl_cons, ih, contains_raiseScore]
  induction rounds with
  | zero => intro scores; rfl
  | succ n ih =>
    intro scores
    show (c.scoresAfter (c.live.foldl c.raiseScore scores) n).contains id = _
    rw [ih, hround]

/-- Exactly the chips with wires have scores. -/
theorem contains_scores_plan {id : Name} :
    (c.plan owner settings).scores.contains id = true ↔ id ∈ c.live := by
  show (c.scoresAfter (c.seedScores owner settings.seed) settings.rounds).contains id = true ↔ _
  rw [contains_scoresAfter, Table.contains_iff, ← Table.mem_keys_iff]
  unfold seedScores
  rw [Table.mem_keys_ofList, List.map_map]
  show id ∈ c.live.map (fun id => id) ↔ _
  rw [List.map_id']

/-! ## §4. The next chip. -/

/-- The chip has not been taken yet, and all chips that drive it have been. -/
def CanFollow (c : Content) (p : Plan) (taken : List Name) (id : Name) : Prop :=
  id ∈ p.order ∧ id ∉ taken ∧ ∀ driver, c.Drives driver id → driver ∈ taken

theorem canFollow_iff {taken : List Name} {id : Name} :
    c.CanFollow (c.plan owner settings) taken id ↔
      c.chipGraph.CanFollow c.chipGraph.nodes taken id := by
  unfold CanFollow Digraph.CanFollow
  rw [(plan_order_perm c owner settings).mem_iff, chipGraph_nodes]
  constructor
  · rintro ⟨hlive, hnew, hdrivers⟩
    exact ⟨hlive, hnew, fun b _ hedge => hdrivers b (edge_iff_drives.1 hedge)⟩
  · rintro ⟨hlive, hnew, hdrivers⟩
    refine ⟨hlive, hnew, fun driver hdrives => ?_⟩
    have hedge := edge_iff_drives.2 hdrives
    exact hdrivers driver (chipGraph_nodes c ▸ (chipGraph_proper c).source_mem hedge) hedge

/-! ## §5. Plans. -/

/-- What the plan of a content is to say. -/
structure IsPlan (c : Content) (p : Plan) : Prop where
  /-- No chip is listed twice. -/
  order_nodup : p.order.Nodup
  /-- The chips that are listed are those on which some wire ends. -/
  mem_order : ∀ id, id ∈ p.order ↔ ∃ chip, c.Wired chip ∧ chip.id = id
  /-- These chips have scores. -/
  scored : ∀ id, p.scores.contains id = true ↔ id ∈ p.order
  /-- The other chips are listed in the order of their names. -/
  dead_rising : p.dead.Pairwise (· < ·)
  mem_dead : ∀ id, id ∈ p.dead ↔ c.chips.contains id = true ∧ id ∉ p.order
  /-- The groups of chips that drive each other are listed in order. -/
  loops_rising : p.loops.Pairwise (· < ·)
  mem_loops : ∀ group, group ∈ p.loops ↔ c.IsLoop group
  /-- Without such groups every chip comes after those that drive it. -/
  driversFirst : p.loops = [] → ∀ a b, c.Drives a b → p.order.idxOf a < p.order.idxOf b
  /-- Then every chip in turn could be next, and goes before all others that could. -/
  greedy : p.loops = [] → ∀ taken a rest, p.order = taken ++ a :: rest →
    c.CanFollow p taken a ∧
      ∀ b, c.CanFollow p taken b → b = a ∨ Digraph.GoesBefore p.score a b
  /-- With such groups the chips are in the order of their scores and names. -/
  sorted : p.loops ≠ [] → p.order.Pairwise (Digraph.GoesBefore p.score)

theorem mem_dead_iff {id : Name} :
    id ∈ c.dead ↔ c.chips.contains id = true ∧ id ∉ c.live := by
  unfold dead
  rw [List.mem_filter, Table.mem_keys_iff, ← Table.contains_iff]
  simp

/-- All that a plan is to say. -/
theorem isPlan_plan (c : Content) (owner : Name) (settings : CompileSettings) :
    c.IsPlan (c.plan owner settings) := by
  have hmem : ∀ id, id ∈ (c.plan owner settings).order ↔ id ∈ c.live := fun id =>
    (plan_order_perm c owner settings).mem_iff
  constructor
  case order_nodup => exact plan_order_nodup c owner settings
  case mem_order => intro id; exact mem_plan_order
  case scored =>
    intro id
    rw [hmem]
    exact contains_scores_plan
  case dead_rising => exact c.chips.keys_rising.filter _
  case mem_dead =>
    intro id
    rw [hmem]
    exact mem_dead_iff
  case loops_rising => exact Digraph.cycles_rising c.chipGraph_rising
  case mem_loops => intro group; exact mem_loops_plan
  case driversFirst =>
    rintro h a b ⟨ha, hb, w, hw, rfl, rfl⟩
    exact plan_idxOf_lt h hw ha hb
  case greedy =>
    intro h taken a rest horder
    rw [plan_order_of_loops h] at horder
    obtain ⟨hfollows, hfirst⟩ := Digraph.sourcesFirst_greedy c.chipGraph _ c.chipGraph_rising horder
    exact ⟨canFollow_iff.2 hfollows, fun b hb => hfirst b (canFollow_iff.1 hb)⟩
  case sorted =>
    intro h
    rw [plan_order_of_loops_ne h]
    exact Digraph.pairwise_mergeSort _ c.live_rising

end LogicBoard.Content
