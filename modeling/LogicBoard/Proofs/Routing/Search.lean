/-
  LogicBoard.Proofs.Routing.Search
  ────────────────────────────────
  **THE SEARCH FINDS A CHEAPEST PATH.**

  The trails that were extended close their cells.  A closed cell has been
  reached in the cheapest way, and all its neighbours have been reached from
  it; every other cell that was reached still has its trail in the queue.  So
  of any trail to a cell that is not closed some part is in the queue, with
  an estimate that the whole trail does not beat.

  Main statements:
    • `Chained.trace` — going back from a cell gives a trail to it,
    • `Known.reach`, `Known.advance` — a step keeps what is known,
    • `Known.frontier` — a part of every trail is in the queue,
    • `run_spec` — what a search returns,
    • `cheapestPath?_eq_some`, `cheapestPath?_eq_none_iff` — the result.
-/
import Mathlib.Data.Finset.Insert
import LogicBoard.Proofs.Routing.Heap
import LogicBoard.Proofs.Routing.Path

namespace LogicBoard

/-! ## §1. Visits. -/

namespace Visits

/-- Cells in the rectangle have a row and a column of their own. -/
theorem visit?_put (v : Visits) (p : Vec) (visit : Visit) (q : Vec) :
    (v.put p visit).visit? q
      = if v.covers p = true ∧ q = p then some visit else v.visit? q := by
  unfold put
  by_cases hp : v.covers p = true
  · have hsize := v.change_size p.y.toNat p.x.toNat fun _ => some visit
    rw [if_pos hp]
    unfold visit?
    rw [Grid.covers_congr hsize, Grid.value?_change]
    by_cases hq : v.covers q = true
    · rw [if_pos hq, if_pos hq]
      by_cases hqp : q = p
      · subst hqp
        have hqcell := Grid.covers_iff.1 hp
        have hentry : (v.value? q.y.toNat q.x.toNat).isSome = true :=
          Grid.isSome_value?.2 ⟨by omega, by omega⟩
        obtain ⟨old, hold⟩ := Option.isSome_iff_exists.1 hentry
        rw [if_pos ⟨rfl, rfl⟩, if_pos ⟨hp, rfl⟩, hold]
        rfl
      · rw [if_neg, if_neg fun hand => hqp hand.2]
        rintro ⟨hrow, hcolumn⟩
        have hpcell := Grid.covers_iff.1 hp
        have hqcell := Grid.covers_iff.1 hq
        exact hqp (Vec.ext (by omega) (by omega))
    · rw [if_neg hq, if_neg hq, if_neg]
      rintro ⟨-, rfl⟩
      exact hq hp
  · rw [if_neg hp, if_neg fun hand => hp hand.1]

theorem visit?_put_self {v : Visits} {p : Vec} (hp : v.covers p = true) (visit : Visit) :
    (v.put p visit).visit? p = some visit := by
  rw [visit?_put, if_pos ⟨hp, rfl⟩]

theorem visit?_put_ne (v : Visits) {p q : Vec} (hq : q ≠ p) (visit : Visit) :
    (v.put p visit).visit? q = v.visit? q := by
  rw [visit?_put, if_neg fun hand => hq hand.2]

theorem covers_put (v : Visits) (p : Vec) (visit : Visit) (q : Vec) :
    (v.put p visit).covers q = v.covers q := by
  unfold put
  split
  · exact Grid.covers_congr (v.change_size _ _ _) q
  · rfl

theorem visit?_ofSize (width height : Nat) (p : Vec) :
    visit? (Grid.ofSize width height none) p = none := by
  unfold visit?
  rw [Grid.value?_ofSize]
  split
  · split <;> rfl
  · rfl

end Visits

namespace Search

variable {costs : Grid Nat} {limit : Nat} {source goal : Vec}

/-- The order of trails. -/
theorem isOrder_le : Heap.IsOrder Trail.le := by
  constructor
  · intro a b
    unfold Trail.le
    simp only [Bool.or_eq_true, Bool.and_eq_true, decide_eq_true_iff]
    omega
  · intro a b c
    unfold Trail.le
    simp only [Bool.or_eq_true, Bool.and_eq_true, decide_eq_true_iff]
    omega

theorem estimate_le_of_le {a b : Trail} (h : Trail.le a b = true) : b.estimate ≤ a.estimate := by
  unfold Trail.le at h
  simp only [Bool.or_eq_true, Bool.and_eq_true, decide_eq_true_iff] at h
  omega

/-- Every cell was reached from one that was closed, at the price of the step; only the start was
reached from nowhere. -/
def Chained (costs : Grid Nat) (limit : Nat) (source : Vec) (closed : Finset Vec) (v : Visits) :
    Prop :=
  ∀ cell visit, v.visit? cell = some visit →
    match visit.previous with
    | none => cell = source ∧ visit.cost = 0
    | some before => before ∈ closed ∧ ∃ earlier m, v.visit? before = some earlier ∧
        Step costs limit before cell m ∧ visit.cost = earlier.cost + m

theorem Chained.mono {closed closed' : Finset Vec} {v : Visits}
    (h : Chained costs limit source closed v) (hsub : closed ⊆ closed') :
    Chained costs limit source closed' v := by
  intro cell visit hvisit
  have hback := h cell visit hvisit
  cases hprevious : visit.previous with
  | none =>
    rw [hprevious] at hback
    exact hback
  | some before =>
    rw [hprevious] at hback
    exact ⟨hsub hback.1, hback.2⟩

/-- Going back from a cell gives a trail to it, on which the costs shrink. -/
theorem Chained.trace {closed : Finset Vec} {v : Visits} (h : Chained costs limit source closed v)
    (steps : Nat) :
    ∀ cell visit, v.visit? cell = some visit → visit.cost < steps →
      ∃ past, Leads costs limit source (cell :: past) visit.cost ∧
        (∀ p ∈ past, ∃ earlier, v.visit? p = some earlier ∧ earlier.cost < visit.cost) ∧
        (cell :: past).Nodup ∧
        ∀ path, v.trace steps cell path = (cell :: past).reverse ++ path := by
  -- The cell before costs less by at least one, so the steps suffice for it as well.
  induction steps with
  | zero =>
    intro cell visit _ hlt
    exact absurd hlt (Nat.not_lt_zero _)
  | succ steps ih =>
    intro cell visit hvisit hlt
    have hback := h cell visit hvisit
    unfold Visits.trace
    cases hprevious : visit.previous with
    | none =>
      rw [hprevious] at hback
      obtain ⟨rfl, hcost⟩ := hback
      refine ⟨[], ?_, by simp, by simp, fun path => ?_⟩
      · rw [hcost]
        exact .start
      · rw [hvisit, Option.bind_some, hprevious]
        rfl
    | some before =>
      rw [hprevious] at hback
      obtain ⟨-, earlier, m, hearlier, hstep, hcost⟩ := hback
      have hpos := hstep.pos
      obtain ⟨past, hleads, hcheaper, hnodup, htrace⟩ := ih before earlier hearlier (by omega)
      have hall : ∀ p ∈ before :: past, ∃ e, v.visit? p = some e ∧ e.cost < visit.cost := by
        intro p hp
        rcases List.mem_cons.1 hp with rfl | hp
        · exact ⟨earlier, hearlier, by omega⟩
        · obtain ⟨e, he, hlt'⟩ := hcheaper p hp
          exact ⟨e, he, by omega⟩
      refine ⟨before :: past, ?_, hall, ?_, fun path => ?_⟩
      · rw [hcost]
        exact .step hleads hstep
      · -- The cell itself is not among the earlier ones, as they all cost less.
        refine List.nodup_cons.2 ⟨fun hmem => ?_, hnodup⟩
        obtain ⟨e, he, hlt'⟩ := hall cell hmem
        rw [hvisit] at he
        obtain rfl := Option.some.inj he
        omega
      · rw [hvisit, Option.bind_some, hprevious]
        dsimp only
        rw [htrace, List.reverse_cons (a := cell), List.append_assoc]
        rfl

/-! ## §2. What a search knows. -/

/-- What holds of a search that has extended the trails to some cells. -/
structure Known (costs : Grid Nat) (limit : Nat) (source goal : Vec) (closed : Finset Vec)
    (s : Search) : Prop where
  ordered : Heap.Ordered Trail.le s.queue
  covers : ∀ p, s.visits.covers p = costs.covers p
  start : ∃ visit, s.visits.visit? source = some visit ∧ visit.cost = 0
  chained : Chained costs limit source closed s.visits
  /-- A cell that is not closed has its trail in the queue. -/
  pending : ∀ cell visit, s.visits.visit? cell = some visit →
    cell ∈ closed ∨ ∃ t ∈ s.queue, t.cell = cell ∧ t.cost = visit.cost
  /-- A trail may be worse than what is known of its cell, but not better. -/
  trails : ∀ t ∈ s.queue, ∃ visit, s.visits.visit? t.cell = some visit ∧ visit.cost ≤ t.cost
  estimates : ∀ t ∈ s.queue, t.estimate ≤ t.cost + t.cell.manhattan goal ∧
    (t.cost = 0 ∨ t.cost + t.cell.manhattan goal ≤ t.estimate)
  distinct : (s.queue.toList.map fun t => (t.cell, t.cost)).Nodup
  /-- A closed cell was reached in the cheapest way, and better than by any trail left. -/
  cheapest : ∀ cell ∈ closed, ∃ visit, s.visits.visit? cell = some visit ∧
    (∀ past n, Leads costs limit source (cell :: past) n → visit.cost ≤ n) ∧
    ∀ t ∈ s.queue, t.cell = cell → visit.cost < t.cost
  goal_open : goal ∉ closed

/-- All neighbours of the cell have been reached from it. -/
def Extended (costs : Grid Nat) (limit : Nat) (s : Search) (cell : Vec) : Prop :=
  ∀ visit, s.visits.visit? cell = some visit → ∀ b m, Step costs limit cell b m →
    ∃ next, s.visits.visit? b = some next ∧ next.cost ≤ visit.cost + m

/-- What is known of closed cells stays; what is known of others only gets better. -/
structure Improved (closed : Finset Vec) (s s' : Search) : Prop where
  kept : ∀ cell ∈ closed, s'.visits.visit? cell = s.visits.visit? cell
  better : ∀ cell visit, s.visits.visit? cell = some visit →
    ∃ visit', s'.visits.visit? cell = some visit' ∧ visit'.cost ≤ visit.cost

theorem Improved.refl (closed : Finset Vec) (s : Search) : Improved closed s s where
  kept _ _ := rfl
  better _ visit h := ⟨visit, h, Nat.le_refl _⟩

theorem Improved.trans {closed : Finset Vec} {s s' s'' : Search} (h : Improved closed s s')
    (h' : Improved closed s' s'') : Improved closed s s'' where
  kept cell hcell := (h'.kept cell hcell).trans (h.kept cell hcell)
  better cell visit hvisit := by
    obtain ⟨visit', hvisit', hle⟩ := h.better cell visit hvisit
    obtain ⟨visit'', hvisit'', hle'⟩ := h'.better cell visit' hvisit'
    exact ⟨visit'', hvisit'', hle'.trans hle⟩

theorem Extended.mono {closed : Finset Vec} {s s' : Search} (h : Improved closed s s') {cell : Vec}
    (hcell : cell ∈ closed) (hext : Extended costs limit s cell) :
    Extended costs limit s' cell := by
  intro visit hvisit b m hstep
  rw [h.kept cell hcell] at hvisit
  obtain ⟨next, hnext, hle⟩ := hext visit hvisit b m hstep
  obtain ⟨next', hnext', hle'⟩ := h.better b next hnext
  exact ⟨next', hnext', hle'.trans hle⟩

/-- Every cell that was reached has a trail of the cost that is known of it. -/
theorem Known.exists_leads {closed : Finset Vec} {s : Search}
    (h : Known costs limit source goal closed s) {cell : Vec} {visit : Visit}
    (hvisit : s.visits.visit? cell = some visit) :
    ∃ past, Leads costs limit source (cell :: past) visit.cost := by
  obtain ⟨past, hleads, -⟩ := h.chained.trace (visit.cost + 1) cell visit hvisit (Nat.lt_succ_self _)
  exact ⟨past, hleads⟩

/-! ## §3. Steps. -/

/-- What a step from a closed cell leads to. -/
structure Reached (costs : Grid Nat) (limit : Nat) (source goal : Vec) (closed : Finset Vec)
    (s : Search) (cell : Vec) (cost : Nat) (s' : Search) : Prop where
  known : Known costs limit source goal closed s'
  improved : Improved closed s s'
  visited : ∃ next, s'.visits.visit? cell = some next ∧ next.cost ≤ cost
  size_le : s'.queue.size ≤ s.queue.size + 1

section Visit

variable {closed : Finset Vec} {queue : Array Trail} {visits : Visits} {before cell : Vec}
  {earlier : Visit} {m : Nat}

/-- A step to a cell shows no cheaper way to it if it is closed. -/
theorem Known.open_of_cheaper (h : Known costs limit source goal closed ⟨queue, visits⟩)
    (hearlier : visits.visit? before = some earlier) (hstep : Step costs limit before cell m)
    (hless : ∀ old, visits.visit? cell = some old → earlier.cost + m < old.cost) :
    cell ∉ closed := by
  intro hclosed
  obtain ⟨old, hold, hmin, -⟩ := h.cheapest cell hclosed
  -- The step would continue a trail of that cost.
  obtain ⟨past, hleads⟩ := h.exists_leads hearlier
  have hle := hmin _ _ (hleads.step hstep)
  have hlt := hless old hold
  omega

/-- A cell that is not closed may be reached anew from a closed one. -/
theorem Chained.put (h : Chained costs limit source closed visits)
    (hgrid : visits.covers cell = true) (hopen : cell ∉ closed) (hbefore : before ∈ closed)
    (hearlier : visits.visit? before = some earlier) (hstep : Step costs limit before cell m) :
    Chained costs limit source closed
      (visits.put cell ⟨earlier.cost + m, some before⟩) := by
  -- No closed cell is the one that is visited anew, so their visits stay.
  have hkept : ∀ q ∈ closed,
      (visits.put cell ⟨earlier.cost + m, some before⟩).visit? q
        = visits.visit? q := by
    intro q hq
    have hne : q ≠ cell := fun heq => hopen (heq ▸ hq)
    exact Visits.visit?_put_ne _ hne _
  intro q visit hvisit
  by_cases hq : q = cell
  · subst hq
    rw [Visits.visit?_put_self hgrid] at hvisit
    obtain rfl := Option.some.inj hvisit
    exact ⟨hbefore, earlier, m, (hkept before hbefore).trans hearlier, hstep, rfl⟩
  · rw [Visits.visit?_put_ne _ hq] at hvisit
    have hback := h q visit hvisit
    cases hprevious : visit.previous with
    | none =>
      rw [hprevious] at hback
      exact hback
    | some b =>
      rw [hprevious] at hback
      obtain ⟨hb, e, n, he, hsteps, hcost⟩ := hback
      exact ⟨hb, e, n, (hkept b hb).trans he, hsteps, hcost⟩

/-- Visiting a cell anew, in a cheaper way, keeps what is known. -/
theorem Known.visit (h : Known costs limit source goal closed ⟨queue, visits⟩)
    (hbefore : before ∈ closed) (hearlier : visits.visit? before = some earlier)
    (hstep : Step costs limit before cell m)
    (hless : ∀ old, visits.visit? cell = some old → earlier.cost + m < old.cost) :
    Known costs limit source goal closed
      ⟨Heap.push Trail.le queue
        ⟨earlier.cost + m + cell.manhattan goal, earlier.cost + m, cell⟩,
        visits.put cell ⟨earlier.cost + m, some before⟩⟩ := by
  have hopen := h.open_of_cheaper hearlier hstep hless
  have hclosed : ∀ q ∈ closed, q ≠ cell := fun q hq heq => hopen (heq ▸ hq)
  have hgrid : visits.covers cell = true :=
    (h.covers cell).trans (Grid.covers_of_contains hstep.enterable.contains)
  constructor
  case ordered => exact Heap.push_ordered isOrder_le h.ordered _
  case covers =>
    intro p
    rw [← h.covers p]
    exact Visits.covers_put _ _ _ _
  case start =>
    obtain ⟨visit, hvisit, hcost⟩ := h.start
    -- Nothing is cheaper than the start.
    have hne : source ≠ cell := by
      rintro rfl
      have hlt := hless visit hvisit
      omega
    exact ⟨visit, (Visits.visit?_put_ne _ hne _).trans hvisit, hcost⟩
  case chained => exact h.chained.put hgrid hopen hbefore hearlier hstep
  case pending =>
    intro q visit hvisit
    by_cases hq : q = cell
    · subst hq
      rw [Visits.visit?_put_self hgrid] at hvisit
      obtain rfl := Option.some.inj hvisit
      exact Or.inr ⟨_, Heap.mem_push.2 (Or.inl rfl), rfl, rfl⟩
    · rw [Visits.visit?_put_ne _ hq] at hvisit
      rcases h.pending q visit hvisit with hin | ⟨t, ht, hcell, hcost⟩
      · exact Or.inl hin
      · exact Or.inr ⟨t, Heap.mem_push.2 (Or.inr ht), hcell, hcost⟩
  case trails =>
    intro t ht
    rcases Heap.mem_push.1 ht with rfl | ht
    · exact ⟨_, Visits.visit?_put_self hgrid _, Nat.le_refl _⟩
    · obtain ⟨visit, hvisit, hle⟩ := h.trails t ht
      by_cases hq : t.cell = cell
      · rw [hq] at hvisit ⊢
        have hlt := hless visit hvisit
        exact ⟨_, Visits.visit?_put_self hgrid _, Nat.le_trans (Nat.le_of_lt hlt) hle⟩
      · exact ⟨visit, (Visits.visit?_put_ne _ hq _).trans hvisit, hle⟩
  case estimates =>
    intro t ht
    rcases Heap.mem_push.1 ht with rfl | ht
    · exact ⟨Nat.le_refl _, Or.inr (Nat.le_refl _)⟩
    · exact h.estimates t ht
  case distinct =>
    rw [((Heap.push_perm queue _).map _).nodup_iff, List.map_cons, List.nodup_cons]
    refine ⟨fun hmem => ?_, h.distinct⟩
    -- No trail to the cell is as cheap as the new one.
    obtain ⟨t, ht, heq⟩ := List.mem_map.1 hmem
    obtain ⟨hcell, hcost⟩ : t.cell = cell ∧ t.cost = earlier.cost + m := Prod.mk.inj heq
    obtain ⟨visit, hvisit, hle⟩ := h.trails t (Array.mem_toList_iff.1 ht)
    rw [hcell] at hvisit
    have hlt := hless visit hvisit
    omega
  case cheapest =>
    intro q hq
    obtain ⟨visit, hvisit, hmin, hleft⟩ := h.cheapest q hq
    refine ⟨visit, (Visits.visit?_put_ne _ (hclosed q hq) _).trans hvisit, hmin,
      fun t ht hcell => ?_⟩
    rcases Heap.mem_push.1 ht with rfl | ht
    · exact absurd hcell.symm (hclosed q hq)
    · exact hleft t ht hcell
  case goal_open => exact h.goal_open

/-- A step from a closed cell keeps what is known. -/
theorem Known.reach (h : Known costs limit source goal closed ⟨queue, visits⟩)
    (hbefore : before ∈ closed) (hearlier : visits.visit? before = some earlier)
    (hstep : Step costs limit before cell m) :
    Reached costs limit source goal closed ⟨queue, visits⟩ cell (earlier.cost + m)
      (Search.reach goal ⟨queue, visits⟩ cell ⟨earlier.cost + m, some before⟩) := by
  unfold Search.reach
  dsimp only
  split
  · rename_i hall
    have hless : ∀ old, visits.visit? cell = some old → earlier.cost + m < old.cost := by
      intro old hold
      rw [hold] at hall
      exact of_decide_eq_true hall
    have hgrid : visits.covers cell = true :=
    (h.covers cell).trans (Grid.covers_of_contains hstep.enterable.contains)
    refine ⟨h.visit hbefore hearlier hstep hless,
      ⟨fun q hq => Visits.visit?_put_ne _ ?_ _, ?_⟩,
      ⟨_, Visits.visit?_put_self hgrid _, Nat.le_refl _⟩, Nat.le_of_eq (Heap.size_push _ _)⟩
    · rintro rfl
      exact h.open_of_cheaper hearlier hstep hless hq
    · intro q old hold
      by_cases hq : q = cell
      · subst hq
        exact ⟨_, Visits.visit?_put_self hgrid _, Nat.le_of_lt (hless old hold)⟩
      · exact ⟨old, (Visits.visit?_put_ne _ hq _).trans hold, Nat.le_refl _⟩
  · rename_i hall
    refine ⟨h, .refl _ _, ?_, Nat.le_succ _⟩
    cases hold : visits.visit? cell with
    | none =>
      rw [hold] at hall
      exact absurd rfl hall
    | some old =>
      rw [hold] at hall
      exact ⟨old, rfl, Nat.le_of_not_lt fun hlt => hall (decide_eq_true hlt)⟩

end Visit

/-! ## §4. Extending a trail. -/

/-- What extending the trail to a closed cell in some directions leads to. -/
structure Advanced (costs : Grid Nat) (limit : Nat) (source goal : Vec) (closed : Finset Vec)
    (t : Trail) (s : Search) (directions : List Vec) (s' : Search) : Prop where
  known : Known costs limit source goal closed s'
  improved : Improved closed s s'
  visited : ∀ way ∈ directions, ∀ m, Step costs limit t.cell (t.cell + way) m →
    ∃ next, s'.visits.visit? (t.cell + way) = some next ∧ next.cost ≤ t.cost + m
  size_le : s'.queue.size ≤ s.queue.size + directions.length

/-- Extending a trail in one direction. -/
theorem Known.advance {closed : Finset Vec} {s : Search}
    (h : Known costs limit source goal closed s) {t : Trail} (ht : t.cell ∈ closed) {visit : Visit}
    (hvisit : s.visits.visit? t.cell = some visit) (hcost : visit.cost = t.cost) {way : Vec}
    (hway : way ∈ ways) :
    Advanced costs limit source goal closed t s [way] (Search.advance costs limit goal t s way) := by
  unfold Search.advance
  dsimp only
  split
  · rename_i hentry
    refine ⟨h, .refl _ _, fun w hw m hstep => ?_, Nat.le_succ _⟩
    obtain rfl := List.mem_singleton.1 hw
    obtain ⟨-, -, -, c, hc, -⟩ := step_iff.1 hstep
    rw [hentry] at hc
    exact absurd hc (by simp)
  · rename_i c hentry
    have hstep : Step costs limit t.cell (t.cell + way) (1 + c) :=
      step_iff.2 ⟨way, hway, rfl, c, hentry, rfl⟩
    obtain ⟨hknown, himproved, hvisited, hsize⟩ := Known.reach h ht hvisit hstep
    rw [hcost] at hknown himproved hvisited hsize
    refine ⟨hknown, himproved, fun w hw m hstep' => ?_, hsize⟩
    obtain rfl := List.mem_singleton.1 hw
    rw [hstep'.price_eq, ← hstep.price_eq]
    exact hvisited

/-- Extending a trail in several directions. -/
theorem Known.extend {closed : Finset Vec} {t : Trail} (ht : t.cell ∈ closed)
    (directions : List Vec) (hways : ∀ way ∈ directions, way ∈ ways) :
    ∀ s : Search, Known costs limit source goal closed s →
      (∃ visit, s.visits.visit? t.cell = some visit ∧ visit.cost = t.cost) →
      Advanced costs limit source goal closed t s directions
        (directions.foldl (Search.advance costs limit goal t) s) := by
  induction directions with
  | nil =>
    intro s h _
    exact ⟨h, .refl _ _, fun w hw => absurd hw List.not_mem_nil, Nat.le_refl _⟩
  | cons way rest ih =>
    rintro s h ⟨visit, hvisit, hcost⟩
    have hone := h.advance ht hvisit hcost (hways way List.mem_cons_self)
    have hrest := ih (fun w hw => hways w (List.mem_cons_of_mem _ hw)) _ hone.known
      ⟨visit, (hone.improved.kept _ ht).trans hvisit, hcost⟩
    rw [List.foldl_cons]
    refine ⟨hrest.known, hone.improved.trans hrest.improved, fun w hw m hstep => ?_, ?_⟩
    · rcases List.mem_cons.1 hw with rfl | hw
      · obtain ⟨next, hnext, hle⟩ := hone.visited w List.mem_cons_self m hstep
        obtain ⟨next', hnext', hle'⟩ := hrest.improved.better _ next hnext
        exact ⟨next', hnext', hle'.trans hle⟩
      · exact hrest.visited w hw m hstep
    · have hsize := hone.size_le
      have hsize' := hrest.size_le
      rw [List.length_singleton] at hsize
      rw [List.length_cons]
      omega

/-! ## §5. Taking a trail. -/

/-- Of every trail to a cell that is not closed some part is in the queue, and its estimate is no
more than the cost of the trail and the distance that is left. -/
theorem Known.frontier {closed : Finset Vec} {s : Search}
    (h : Known costs limit source goal closed s)
    (hext : ∀ cell ∈ closed, Extended costs limit s cell) {x : Vec} {past : List Vec} {n : Nat}
    (hleads : Leads costs limit source (x :: past) n) :
    x ∈ closed ∨ ∃ t ∈ s.queue, t.estimate ≤ n + x.manhattan goal := by
  -- By induction on the trail: either it leaves the closed cells here, or it did so before.
  generalize hcells : x :: past = cells at hleads
  induction hleads generalizing x past with
  | start =>
    obtain ⟨rfl, -⟩ := List.cons.inj hcells
    obtain ⟨visit, hvisit, hcost⟩ := h.start
    rcases h.pending x visit hvisit with hin | ⟨t, ht, hcell, hcost'⟩
    · exact Or.inl hin
    · have hest := (h.estimates t ht).1
      rw [hcell] at hest
      exact Or.inr ⟨t, ht, by omega⟩
  | @step past' a b n m htrail hstep ih =>
    obtain ⟨rfl, -⟩ := List.cons.inj hcells
    rcases ih rfl with ha | ⟨t, ht, hest⟩
    · -- The cell before is closed, so this one was reached from it.
      obtain ⟨visit, hvisit, hmin, -⟩ := h.cheapest a ha
      obtain ⟨next, hnext, hle⟩ := hext a ha visit hvisit x m hstep
      have hle' := hmin past' n htrail
      rcases h.pending x next hnext with hin | ⟨t, ht, hcell, hcost⟩
      · exact Or.inl hin
      · have hest := (h.estimates t ht).1
        rw [hcell] at hest
        exact Or.inr ⟨t, ht, by omega⟩
    · -- The distance shrinks by no more than the step costs.
      have hdist := manhattan_le_of_step hstep goal
      exact Or.inr ⟨t, ht, by omega⟩

section Pop

variable {closed : Finset Vec} {queue rest : Array Trail} {visits : Visits} {t : Trail}

/-- The queue holds the trail that is taken and those that are left. -/
theorem Known.mem_queue_iff (h : Known costs limit source goal closed ⟨queue, visits⟩)
    (hpop : Heap.pop? Trail.le queue = some (t, rest)) {t' : Trail} :
    t' ∈ queue ↔ t' = t ∨ t' ∈ rest :=
  Heap.mem_of_pop? isOrder_le h.ordered hpop

/-- The trail that is taken and those that are left are still distinct. -/
theorem Known.distinct_of_pop (h : Known costs limit source goal closed ⟨queue, visits⟩)
    (hpop : Heap.pop? Trail.le queue = some (t, rest)) :
    (t.cell, t.cost) ∉ rest.toList.map (fun t => (t.cell, t.cost)) ∧
      (rest.toList.map fun t => (t.cell, t.cost)).Nodup := by
  obtain ⟨-, hperm, -⟩ := Heap.pop?_spec isOrder_le h.ordered hpop
  have hnodup := h.distinct
  rw [(hperm.map _).nodup_iff, List.map_cons, List.nodup_cons] at hnodup
  exact hnodup

/-- The trail that is taken is a cheapest one to its cell. -/
theorem Known.cost_le (h : Known costs limit source goal closed ⟨queue, visits⟩)
    (hext : ∀ cell ∈ closed, Extended costs limit ⟨queue, visits⟩ cell)
    (hpop : Heap.pop? Trail.le queue = some (t, rest)) (hopen : t.cell ∉ closed) {past : List Vec}
    {n : Nat} (hleads : Leads costs limit source (t.cell :: past) n) : t.cost ≤ n := by
  obtain ⟨hgreatest, -, -⟩ := Heap.pop?_spec isOrder_le h.ordered hpop
  have ht : t ∈ queue := (h.mem_queue_iff hpop).2 (Or.inl rfl)
  obtain ⟨t', ht', hest⟩ := (h.frontier hext hleads).resolve_left hopen
  have hle := estimate_le_of_le (hgreatest t' ht')
  rcases (h.estimates t ht).2 with hzero | hfull
  · omega
  · omega

/-- A trail to a cell that was reached more cheaply since can be left alone. -/
theorem Known.skip (h : Known costs limit source goal closed ⟨queue, visits⟩)
    (hpop : Heap.pop? Trail.le queue = some (t, rest)) {visit : Visit}
    (hvisit : visits.visit? t.cell = some visit) (hstale : visit.cost < t.cost) :
    Known costs limit source goal closed ⟨rest, visits⟩ := by
  obtain ⟨-, -, hordered⟩ := Heap.pop?_spec isOrder_le h.ordered hpop
  have hmem : ∀ t' ∈ rest, t' ∈ queue := fun t' ht' => (h.mem_queue_iff hpop).2 (Or.inr ht')
  constructor
  case ordered => exact hordered
  case covers => exact h.covers
  case start => exact h.start
  case chained => exact h.chained
  case pending =>
    intro cell v hv
    rcases h.pending cell v hv with hin | ⟨t', ht', hcell, hcost⟩
    · exact Or.inl hin
    · rcases (h.mem_queue_iff hpop).1 ht' with rfl | hrest
      · -- The trail that is left alone is not the one that is known of its cell.
        rw [hcell, hv] at hvisit
        obtain rfl := Option.some.inj hvisit
        omega
      · exact Or.inr ⟨t', hrest, hcell, hcost⟩
  case trails => exact fun t' ht' => h.trails t' (hmem t' ht')
  case estimates => exact fun t' ht' => h.estimates t' (hmem t' ht')
  case distinct => exact (h.distinct_of_pop hpop).2
  case cheapest =>
    intro cell hcell
    obtain ⟨v, hv, hmin, hleft⟩ := h.cheapest cell hcell
    exact ⟨v, hv, hmin, fun t' ht' => hleft t' (hmem t' ht')⟩
  case goal_open => exact h.goal_open

/-- The trail that is known of its cell leads to one that is not closed: all trails left to a closed
cell are worse than what is known of it. -/
theorem Known.open_of_fresh (h : Known costs limit source goal closed ⟨queue, visits⟩)
    (hpop : Heap.pop? Trail.le queue = some (t, rest)) {visit : Visit}
    (hvisit : visits.visit? t.cell = some visit) (hfresh : visit.cost = t.cost) :
    t.cell ∉ closed := by
  intro hin
  obtain ⟨v, hv, -, hleft⟩ := h.cheapest t.cell hin
  obtain rfl : visit = v := Option.some.inj (hvisit.symm.trans hv)
  have hlt := hleft t ((h.mem_queue_iff hpop).2 (Or.inl rfl)) rfl
  omega

/-- The other trails to the cell of the trail that is known of it cost more. -/
theorem Known.lt_cost_of_rest (h : Known costs limit source goal closed ⟨queue, visits⟩)
    (hpop : Heap.pop? Trail.le queue = some (t, rest)) {visit : Visit}
    (hvisit : visits.visit? t.cell = some visit) (hfresh : visit.cost = t.cost) {t' : Trail}
    (ht' : t' ∈ rest) (hcell : t'.cell = t.cell) : visit.cost < t'.cost := by
  obtain ⟨v, hv, hle⟩ := h.trails t' ((h.mem_queue_iff hpop).2 (Or.inr ht'))
  rw [hcell, hvisit] at hv
  obtain rfl := Option.some.inj hv
  -- No two trails in the queue agree in both the cell and the cost.
  have hne : t'.cost ≠ t.cost := by
    intro heq
    exact (h.distinct_of_pop hpop).1
      (List.mem_map.2 ⟨t', Array.mem_toList_iff.2 ht', Prod.ext hcell heq⟩)
  omega

/-- Taking the trail that is known of a cell closes the cell. -/
theorem Known.close (h : Known costs limit source goal closed ⟨queue, visits⟩)
    (hext : ∀ cell ∈ closed, Extended costs limit ⟨queue, visits⟩ cell)
    (hpop : Heap.pop? Trail.le queue = some (t, rest)) {visit : Visit}
    (hvisit : visits.visit? t.cell = some visit) (hfresh : visit.cost = t.cost)
    (hgoal : t.cell ≠ goal) :
    Known costs limit source goal (insert t.cell closed) ⟨rest, visits⟩ := by
  obtain ⟨-, -, hordered⟩ := Heap.pop?_spec isOrder_le h.ordered hpop
  have hmem : ∀ t' ∈ rest, t' ∈ queue := fun t' ht' => (h.mem_queue_iff hpop).2 (Or.inr ht')
  constructor
  case ordered => exact hordered
  case covers => exact h.covers
  case start => exact h.start
  case chained => exact h.chained.mono (Finset.subset_insert _ _)
  case pending =>
    intro cell v hv
    rcases h.pending cell v hv with hin | ⟨t', ht', hcell, hcost⟩
    · exact Or.inl (Finset.mem_insert_of_mem hin)
    · rcases (h.mem_queue_iff hpop).1 ht' with rfl | hrest
      · exact Or.inl (hcell ▸ Finset.mem_insert_self _ _)
      · exact Or.inr ⟨t', hrest, hcell, hcost⟩
  case trails => exact fun t' ht' => h.trails t' (hmem t' ht')
  case estimates => exact fun t' ht' => h.estimates t' (hmem t' ht')
  case distinct => exact (h.distinct_of_pop hpop).2
  case cheapest =>
    intro cell hcell
    rcases Finset.mem_insert.1 hcell with rfl | hin
    · refine ⟨visit, hvisit, fun past n hleads => ?_, fun t' ht' => ?_⟩
      · rw [hfresh]
        exact h.cost_le hext hpop (h.open_of_fresh hpop hvisit hfresh) hleads
      · exact h.lt_cost_of_rest hpop hvisit hfresh ht'
    · obtain ⟨v, hv, hmin, hleft⟩ := h.cheapest cell hin
      exact ⟨v, hv, hmin, fun t' ht' => hleft t' (hmem t' ht')⟩
  case goal_open =>
    intro hin
    rcases Finset.mem_insert.1 hin with heq | hin
    · exact hgoal heq.symm
    · exact h.goal_open hin

end Pop

/-! ## §6. Whole searches. -/

/-- What a search is to return: the cells of a cheapest trail to the goal, or nothing if there is no
trail to it. -/
def Answer (costs : Grid Nat) (limit : Nat) (source goal : Vec) : Option (List Vec) → Prop
  | some path => ∃ past n, path = (goal :: past).reverse ∧ (goal :: past).Nodup ∧
      Leads costs limit source (goal :: past) n ∧
      ∀ past' n', Leads costs limit source (goal :: past') n' → n ≤ n'
  | none => ∀ past n, ¬ Leads costs limit source (goal :: past) n

/-- Closed cells are in the rectangle. -/
theorem Known.covers_of_closed {closed : Finset Vec} {s : Search}
    (h : Known costs limit source goal closed s) {cell : Vec} (hcell : cell ∈ closed) :
    costs.covers cell = true := by
  obtain ⟨visit, hvisit, -⟩ := h.cheapest cell hcell
  rw [← h.covers cell]
  unfold Visits.visit? at hvisit
  split at hvisit
  · assumption
  · exact absurd hvisit (by simp)

/-- Extending the trail that closed a cell leaves every closed cell extended. -/
theorem Advanced.extended {closed : Finset Vec} {t : Trail} {s s' : Search} {visit : Visit}
    (h : Advanced costs limit source goal (insert t.cell closed) t s ways s')
    (hvisit : s.visits.visit? t.cell = some visit) (hcost : visit.cost = t.cost)
    (hext : ∀ cell ∈ closed, Extended costs limit s cell) :
    ∀ cell ∈ insert t.cell closed, Extended costs limit s' cell := by
  intro cell hcell
  rcases Finset.mem_insert.1 hcell with rfl | hin
  · -- The four ways lead to all neighbours of the cell.
    intro v hv b m hstep
    rw [h.improved.kept _ hcell, hvisit] at hv
    obtain rfl := Option.some.inj hv
    obtain ⟨way, hway, rfl⟩ := exists_way_iff.2 hstep.adjacent
    rw [hcost]
    exact h.visited way hway m hstep
  · exact (hext cell hin).mono h.improved hcell

/-- Where a trail to the goal is taken, going back from the goal is an answer. -/
theorem Known.answer {closed : Finset Vec} {queue rest : Array Trail} {visits : Visits} {t : Trail}
    (h : Known costs limit source goal closed ⟨queue, visits⟩)
    (hext : ∀ cell ∈ closed, Extended costs limit ⟨queue, visits⟩ cell)
    (hpop : Heap.pop? Trail.le queue = some (t, rest)) (hgoal : t.cell = goal) :
    Answer costs limit source goal (some (visits.trace (t.cost + 1) goal [])) := by
  obtain ⟨visit, hvisit, hle⟩ := h.trails t ((h.mem_queue_iff hpop).2 (Or.inl rfl))
  have hopen : t.cell ∉ closed := hgoal ▸ h.goal_open
  rw [hgoal] at hvisit
  obtain ⟨past, hleads, -, hnodup, htrace⟩ :=
    h.chained.trace (t.cost + 1) goal visit hvisit (by omega)
  refine ⟨past, visit.cost, ?_, hnodup, hleads, fun past' n' hother => ?_⟩
  · rw [htrace, List.append_nil]
  · exact hle.trans (h.cost_le hext hpop hopen (hgoal ▸ hother))

/-- A search with enough fuel for its queue and the cells that are not closed gives an answer. -/
theorem run_spec (fuel : Nat) :
    ∀ (closed : Finset Vec) (s : Search), Known costs limit source goal closed s →
      (∀ cell ∈ closed, Extended costs limit s cell) →
      s.queue.size + 4 * (costs.width * costs.height - closed.card) < fuel →
      Answer costs limit source goal (run costs limit goal fuel s) := by
  induction fuel with
  | zero =>
    intro closed s _ _ hfuel
    exact absurd hfuel (Nat.not_lt_zero _)
  | succ fuel ih =>
    rintro closed ⟨queue, visits⟩ h hext hfuel
    unfold run
    cases hpop : Heap.pop? Trail.le queue with
    | none =>
      -- A trail to the goal would have a part in the queue.
      intro past n hleads
      obtain ⟨t, ht, -⟩ := (h.frontier hext hleads).resolve_left h.goal_open
      obtain rfl : queue = #[] := Heap.pop?_eq_none_iff.1 hpop
      exact absurd ht (by simp)
    | some popped =>
      obtain ⟨t, rest⟩ := popped
      have ht : t ∈ queue := (h.mem_queue_iff hpop).2 (Or.inl rfl)
      have hsize : queue.size = rest.size + 1 := Heap.size_of_pop? isOrder_le h.ordered hpop
      obtain ⟨visit, hvisit, hle⟩ := h.trails t ht
      dsimp only at hvisit hfuel ⊢
      split
      · rename_i hgoal
        rw [hgoal]
        exact h.answer hext hpop hgoal
      · rename_i hgoal
        rw [hvisit]
        split
        · -- The cell was reached more cheaply since.
          rename_i hstale
          refine ih closed _ (h.skip hpop hvisit (of_decide_eq_true hstale)) hext ?_
          dsimp only
          omega
        · rename_i hfresh
          have hcost : visit.cost = t.cost :=
            Nat.le_antisymm hle (Nat.le_of_not_lt fun hlt => hfresh (decide_eq_true hlt))
          have hopen := h.open_of_fresh hpop hvisit hcost
          have hclose := h.close hext hpop hvisit hcost hgoal
          have hadvanced := Known.extend (Finset.mem_insert_self t.cell closed) ways
            (fun _ hway => hway) _ hclose ⟨visit, hvisit, hcost⟩
          refine ih _ _ hadvanced.known (hadvanced.extended hvisit hcost hext) ?_
          -- Four trails come into the queue at most, but one left and one more cell is closed.
          have hcard := Grid.card_le fun cell hcell => hclose.covers_of_closed hcell
          rw [Finset.card_insert_of_notMem hopen] at hcard ⊢
          have hsize' := hadvanced.size_le
          have hways : ways.length = 4 := rfl
          dsimp only at hsize'
          omega

/-- What is known when a search begins. -/
theorem known_start (hsource : costs.contains source = true) :
    Known costs limit source goal ∅ (.start costs source) := by
  have hgrid : ∀ p, (Grid.ofSize costs.width costs.height (none : Option Visit)).covers p
      = costs.covers p := fun p => rfl
  have hself : (start costs source).visits.visit? source = some ⟨0, none⟩ := by
    unfold start
    exact Visits.visit?_put_self ((hgrid source).trans (Grid.covers_of_contains hsource)) _
  have honly : ∀ cell visit, (start costs source).visits.visit? cell = some visit →
      cell = source ∧ visit = ⟨0, none⟩ := by
    intro cell visit hvisit
    unfold start at hvisit
    rw [Visits.visit?_put, Visits.visit?_ofSize] at hvisit
    split at hvisit
    · rename_i hand
      exact ⟨hand.2, (Option.some.inj hvisit).symm⟩
    · exact absurd hvisit (by simp)
  have hqueue : ∀ t, t ∈ (start costs source).queue ↔ t = ⟨0, 0, source⟩ := fun t => by simp [start]
  constructor
  case ordered =>
    intro k hk
    exact Heap.under_of_size_le hk
  case covers =>
    intro p
    rw [← hgrid p]
    exact Visits.covers_put _ _ _ _
  case start => exact ⟨_, hself, rfl⟩
  case chained =>
    intro cell visit hvisit
    obtain ⟨hcell, rfl⟩ := honly cell visit hvisit
    exact ⟨hcell, rfl⟩
  case pending =>
    intro cell visit hvisit
    obtain ⟨rfl, rfl⟩ := honly cell visit hvisit
    exact Or.inr ⟨_, (hqueue _).2 rfl, rfl, rfl⟩
  case trails =>
    intro t ht
    rw [(hqueue t).1 ht]
    exact ⟨_, hself, Nat.le_refl _⟩
  case estimates =>
    intro t ht
    rw [(hqueue t).1 ht]
    exact ⟨Nat.zero_le _, Or.inl rfl⟩
  case distinct => exact List.nodup_singleton _
  case cheapest =>
    intro cell hcell
    exact absurd hcell (Finset.notMem_empty _)
  case goal_open => exact Finset.notMem_empty _

/-! ## §7. Cheapest paths. -/

/-- The search gives an answer if it is made at all. -/
theorem answer_cheapestPath? (hsource : costs.contains source = true)
    (hgoal : (entryCost? costs limit goal).isSome = true) :
    Answer costs limit source goal (cheapestPath? costs limit source goal) := by
  unfold cheapestPath?
  rw [hsource, hgoal]
  refine run_spec _ ∅ _ (known_start hsource) (fun cell hcell => absurd hcell (Finset.notMem_empty _)) ?_
  have hsize : (start costs source).queue.size = 1 := rfl
  rw [hsize, Finset.card_empty]
  omega

/-- What the search finds is a cheapest path. -/
theorem cheapestPath?_eq_some {path : List Vec}
    (h : cheapestPath? costs limit source goal = some path) :
    IsCheapestPath costs limit source goal path := by
  have hends : costs.contains source = true ∧ (entryCost? costs limit goal).isSome = true := by
    unfold cheapestPath? at h
    split at h
    · rename_i hends
      exact Bool.and_eq_true_iff.1 hends
    · exact absurd h (by simp)
  have hanswer := answer_cheapestPath? hends.1 hends.2
  rw [h] at hanswer
  obtain ⟨past, n, hpath, hnodup, hleads, hmin⟩ := hanswer
  have hcost : pathCost costs path = n := by
    have hback : goal :: past = path.reverse := by rw [hpath, List.reverse_reverse]
    rw [(leads_iff.1 hleads).2.2.2, hback, List.dropLast_reverse, List.map_reverse,
      List.sum_reverse, pathCost]
  refine ⟨isPath_iff.2 ⟨past, hpath, hnodup, hends.1, hcost ▸ hleads⟩, fun other hother => ?_⟩
  obtain ⟨past', -, -, -, hleads'⟩ := isPath_iff.1 hother
  rw [hcost]
  exact hmin past' _ hleads'

/-- Between different cells, the search finds nothing only if there is no path. -/
theorem cheapestPath?_eq_none_iff (hne : source ≠ goal) :
    cheapestPath? costs limit source goal = none ↔
      ¬ ∃ path, IsPath costs limit source goal path := by
  constructor
  · rintro h ⟨path, hpath⟩
    have hsource : costs.contains source = true := hpath.onGrid _ (List.mem_of_head? hpath.head)
    -- The goal is not the first cell, so the path enters it.
    have hgoal : (entryCost? costs limit goal).isSome = true := by
      obtain ⟨rest, rfl⟩ := List.head?_eq_some_iff.1 hpath.head
      have hmem : goal ∈ rest := by
        have hlast := List.mem_of_getLast? hpath.last
        exact (List.mem_cons.1 hlast).resolve_left fun heq => hne heq.symm
      obtain ⟨c, hc, hlimit⟩ := hpath.enterable goal hmem
      rw [entryCost?_eq_some_iff.2 ⟨hc, hlimit⟩]
      rfl
    have hanswer := answer_cheapestPath? hsource hgoal
    rw [h] at hanswer
    obtain ⟨past, -, -, -, hleads⟩ := isPath_iff.1 hpath
    exact hanswer past _ hleads
  · intro h
    cases hresult : cheapestPath? costs limit source goal with
    | none => rfl
    | some path => exact absurd ⟨path, (cheapestPath?_eq_some hresult).1⟩ h

end Search

end LogicBoard
