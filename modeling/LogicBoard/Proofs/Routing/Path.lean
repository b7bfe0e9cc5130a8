/-
  LogicBoard.Proofs.Routing.Path
  ────────────────────────────────
  **PATHS AND WHAT THEY COST.**

  A path moves between neighbouring cells of a grid, none of them twice, and
  enters no cell at or above the limit; the cell it starts from may have any
  cost.  The search builds paths from their ends, so paths are compared with
  *trails*, which list their cells backwards together with the cost.

  Main statements:
    • `manhattan_le_of_step` — the distance never overstates a step,
    • `leads_iff` — what it takes to be a trail,
    • `isPath_iff` — paths are trails without repetitions, read backwards.
-/
import Mathlib
import LogicBoard.Proofs.Routing.Grid
import LogicBoard.Routing.Search

namespace LogicBoard.Search

/-! ## §1. Paths. -/

/-- The cell can be entered: it is on the grid and costs less than the limit. -/
def Enterable (costs : Grid Nat) (limit : Nat) (cell : Vec) : Prop :=
  ∃ n, costs.get? cell = some n ∧ n < limit

/-- A path from one cell to another. -/
structure IsPath (costs : Grid Nat) (limit : Nat) (source goal : Vec) (path : List Vec) : Prop where
  head : path.head? = some source
  last : path.getLast? = some goal
  adjacent : path.IsChain fun a b => a.manhattan b = 1
  nodup : path.Nodup
  onGrid : ∀ cell ∈ path, costs.contains cell = true
  enterable : ∀ cell ∈ path.tail, Enterable costs limit cell

/-- What entering a cell costs. -/
def price (costs : Grid Nat) (cell : Vec) : Nat := 1 + (costs.get? cell).getD 0

/-- What a path costs: the price of all cells but the first. -/
def pathCost (costs : Grid Nat) (path : List Vec) : Nat := (path.tail.map (price costs)).sum

/-- A path that costs no more than any other between its ends. -/
def IsCheapestPath (costs : Grid Nat) (limit : Nat) (source goal : Vec) (path : List Vec) : Prop :=
  IsPath costs limit source goal path ∧
    ∀ other, IsPath costs limit source goal other → pathCost costs path ≤ pathCost costs other

variable {costs : Grid Nat} {limit : Nat} {source goal : Vec}

/-! ## §2. Steps. -/

/-- A step to a neighbouring cell that can be entered, and its price. -/
structure Step (costs : Grid Nat) (limit : Nat) (a b : Vec) (n : Nat) : Prop where
  adjacent : a.manhattan b = 1
  enterable : Enterable costs limit b
  price_eq : n = price costs b

theorem entryCost?_eq_some_iff {cell : Vec} {c : Nat} :
    entryCost? costs limit cell = some c ↔ costs.get? cell = some c ∧ c < limit := by
  unfold entryCost?
  rw [Option.filter_eq_some_iff, decide_eq_true_iff]

theorem Enterable.contains {cell : Vec} (h : Enterable costs limit cell) :
    costs.contains cell = true := by
  obtain ⟨n, hn, -⟩ := h
  exact Grid.contains_of_get? hn

/-- The ways out of a cell lead to its neighbours. -/
theorem exists_way_iff {a b : Vec} : (∃ way ∈ ways, a + way = b) ↔ a.manhattan b = 1 := by
  constructor
  · rintro ⟨way, hway, rfl⟩
    simp only [ways, List.mem_cons, List.not_mem_nil, or_false] at hway
    unfold Vec.manhattan
    rcases hway with rfl | rfl | rfl | rfl <;> simp only [Vec.add_x, Vec.add_y] <;> omega
  · intro h
    -- The difference of the cells is the only candidate.
    refine ⟨⟨b.x - a.x, b.y - a.y⟩, ?_, by ext <;> simp⟩
    unfold Vec.manhattan at h
    simp only [ways, List.mem_cons, List.not_mem_nil, or_false, Vec.mk.injEq]
    omega

/-- Where a step may lead. -/
theorem step_iff {a b : Vec} {n : Nat} :
    Step costs limit a b n ↔
      ∃ way ∈ ways, a + way = b ∧ ∃ c, entryCost? costs limit b = some c ∧ n = 1 + c := by
  constructor
  · rintro ⟨hadjacent, ⟨c, hc, hlimit⟩, rfl⟩
    obtain ⟨way, hway, hb⟩ := exists_way_iff.2 hadjacent
    exact ⟨way, hway, hb, c, entryCost?_eq_some_iff.2 ⟨hc, hlimit⟩, by rw [price, hc]; rfl⟩
  · rintro ⟨way, hway, hb, c, hc, rfl⟩
    obtain ⟨hget, hlimit⟩ := entryCost?_eq_some_iff.1 hc
    exact ⟨exists_way_iff.1 ⟨way, hway, hb⟩, ⟨c, hget, hlimit⟩, by rw [price, hget]; rfl⟩

theorem Step.pos {a b : Vec} {n : Nat} (h : Step costs limit a b n) : 0 < n := by
  rw [h.price_eq, price]
  omega

/-- The distance to the goal shrinks by no more than a step costs. -/
theorem manhattan_le_of_step {a b : Vec} {n : Nat} (h : Step costs limit a b n) (goal : Vec) :
    a.manhattan goal ≤ n + b.manhattan goal := by
  have hadjacent := h.adjacent
  have hpos := h.pos
  unfold Vec.manhattan at *
  omega

/-! ## §3. Trails. -/

/-- The cells lead back to the source, and the way from there has the cost. -/
inductive Leads (costs : Grid Nat) (limit : Nat) (source : Vec) : List Vec → Nat → Prop where
  | start : Leads costs limit source [source] 0
  | step {past : List Vec} {a b : Vec} {n m : Nat} (trail : Leads costs limit source (a :: past) n)
      (step : Step costs limit a b m) : Leads costs limit source (b :: a :: past) (n + m)

/-- What it takes to be a trail. -/
theorem leads_iff {cells : List Vec} {n : Nat} :
    Leads costs limit source cells n ↔
      cells.getLast? = some source ∧ cells.IsChain (fun b a => a.manhattan b = 1) ∧
        (∀ cell ∈ cells.dropLast, Enterable costs limit cell) ∧
        n = (cells.dropLast.map (price costs)).sum := by
  constructor
  · intro h
    induction h with
    | start => simp
    | @step past a b n m _ hstep ih =>
      obtain ⟨hlast, hchain, henter, hcost⟩ := ih
      rw [List.getLast?_cons_cons, List.isChain_cons_cons, List.dropLast_cons_cons, List.forall_mem_cons,
        List.map_cons, List.sum_cons, ← hcost, hstep.price_eq, Nat.add_comm]
      exact ⟨hlast, ⟨hstep.adjacent, hchain⟩, ⟨hstep.enterable, henter⟩, rfl⟩
  · rintro ⟨hlast, hchain, henter, hcost⟩
    -- Cell by cell from the end of the trail back to the source.
    induction cells generalizing n with
    | nil => simp at hlast
    | cons b rest ih =>
      cases rest with
      | nil =>
        obtain rfl : b = source := by simpa using hlast
        obtain rfl : n = 0 := by simpa using hcost
        exact .start
      | cons a past =>
        rw [List.getLast?_cons_cons] at hlast
        rw [List.isChain_cons_cons] at hchain
        rw [List.dropLast_cons_cons, List.forall_mem_cons] at henter
        rw [List.dropLast_cons_cons, List.map_cons, List.sum_cons, Nat.add_comm] at hcost
        rw [hcost]
        exact .step (ih hlast hchain.2 henter.2 rfl) ⟨hchain.1, henter.1, rfl⟩

/-- Paths are trails without repetitions, read backwards. -/
theorem isPath_iff {path : List Vec} :
    IsPath costs limit source goal path ↔
      ∃ past, path = (goal :: past).reverse ∧ (goal :: past).Nodup ∧ costs.contains source = true ∧
        Leads costs limit source (goal :: past) (pathCost costs path) := by
  constructor
  · intro h
    obtain ⟨past, hpast⟩ : ∃ past, path.reverse = goal :: past := by
      have hhead := h.last
      rw [← List.head?_reverse] at hhead
      exact List.head?_eq_some_iff.1 hhead
    have hpath : path = (goal :: past).reverse := by rw [← hpast, List.reverse_reverse]
    refine ⟨past, hpath, ?_, h.onGrid _ (List.mem_of_head? h.head), ?_⟩
    · rw [← hpast]
      exact List.nodup_reverse.2 h.nodup
    · rw [← hpast, leads_iff, List.getLast?_reverse, List.isChain_reverse, List.dropLast_reverse]
      refine ⟨h.head, h.adjacent, fun cell hcell => h.enterable cell (List.mem_reverse.1 hcell), ?_⟩
      rw [List.map_reverse, List.sum_reverse, pathCost]
  · rintro ⟨past, hpath, hnodup, hsource, hleads⟩
    have hback : goal :: past = path.reverse := by rw [hpath, List.reverse_reverse]
    rw [hback, leads_iff, List.getLast?_reverse, List.isChain_reverse, List.dropLast_reverse]
      at hleads
    obtain ⟨hhead, hchain, henter, -⟩ := hleads
    have henter' : ∀ cell ∈ path.tail, Enterable costs limit cell := fun cell hcell =>
      henter cell (List.mem_reverse.2 hcell)
    refine ⟨hhead, by rw [hpath]; simp, hchain, ?_, fun cell hcell => ?_, henter'⟩
    · rw [hpath]
      exact List.nodup_reverse.2 hnodup
    · -- The source is on the grid, and so is every cell that can be entered.
      obtain ⟨rest, rfl⟩ := List.head?_eq_some_iff.1 hhead
      rcases List.mem_cons.1 hcell with rfl | hrest
      · exact hsource
      · exact (henter' cell hrest).contains

end LogicBoard.Search
