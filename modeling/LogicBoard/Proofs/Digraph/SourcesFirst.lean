/-
  LogicBoard.Proofs.Digraph.SourcesFirst
  ────────────────────────────────
  **ORDERS IN WHICH EVERY NODE COMES AFTER WHAT POINTS TO IT.**

  In an acyclic graph some waiting node is always ready, because a way
  backwards through the waiting nodes has to end.  So nodes can be taken one
  by one until none waits, and a key may choose freely among the ready ones.

  Main statements:
    • `exists_ready` — some waiting node is ready,
    • `sourcesFirst_perm` — the list holds every waiting node once,
    • `idxOf_lt_of_sourcesFirst` — every edge leads to a later node.
-/
import Mathlib.Order.WellFounded
import Mathlib.Data.Fintype.EquivFin
import Mathlib.Data.Fintype.Basic
import LogicBoard.Proofs.Digraph.Reachability

set_option linter.unusedSectionVars false

namespace LogicBoard.Digraph

open Relation

universe u

variable {κ : Type u} [DecidableEq κ]

/-! ## §1. Ready nodes. -/

theorem leastBy?_mem {key : κ → Nat} {l : List κ} {a : κ} (h : leastBy? key l = some a) :
    a ∈ l := by
  induction l generalizing a with
  | nil => simp [leastBy?] at h
  | cons b rest ih =>
    unfold leastBy? at h
    split at h
    · obtain rfl : b = a := by simpa using h
      exact List.mem_cons_self
    · rename_i c hc
      split at h
      · obtain rfl : c = a := by simpa using h
        exact List.mem_cons_of_mem _ (ih hc)
      · obtain rfl : b = a := by simpa using h
        exact List.mem_cons_self

theorem leastBy?_eq_none {key : κ → Nat} {l : List κ} (h : leastBy? key l = none) : l = [] := by
  cases l with
  | nil => rfl
  | cons b rest =>
    unfold leastBy? at h
    split at h
    · simp at h
    · split at h <;> simp at h

/-- A node is ready if no waiting node points to it. -/
theorem isReady_iff {g : Digraph κ} {waiting : List κ} {a : κ} :
    g.isReady waiting a = true ↔ ∀ b ∈ waiting, ¬ g.Edge b a := by
  simp only [isReady, List.all_eq_true, Bool.or_eq_true, decide_eq_true_eq, Bool.not_eq_true',
    List.contains_eq_mem, decide_eq_false_iff_not]
  constructor
  · intro h b hb hedge
    rcases h (b, a) hedge with hne | hnot
    · exact hne rfl
    · exact hnot hb
  · rintro h ⟨b, c⟩ he
    by_cases hc : c = a
    · subst hc
      exact Or.inr fun hb => h b hb he
    · exact Or.inl hc

/-- In an acyclic graph some waiting node is ready. -/
theorem exists_ready {g : Digraph κ} (hac : g.Acyclic) {waiting : List κ} (hne : waiting ≠ []) :
    ∃ a ∈ waiting, g.isReady waiting a = true := by
  -- Reaching along edges is well-founded on the finitely many waiting nodes.
  let before : {a // a ∈ waiting} → {a // a ∈ waiting} → Prop := fun a b => TransGen g.Edge a b
  have : IsTrans _ before := ⟨fun _ _ _ hab hbc => TransGen.trans hab hbc⟩
  have : Std.Irrefl before := ⟨fun a h => hac a h⟩
  have hwf : WellFounded before := Finite.wellFounded_of_trans_of_irrefl before
  obtain ⟨b, hb⟩ := List.exists_mem_of_ne_nil waiting hne
  obtain ⟨⟨a, ha⟩, -, hmin⟩ := hwf.has_min Set.univ ⟨⟨b, hb⟩, trivial⟩
  refine ⟨a, ha, isReady_iff.2 fun c hc hedge => ?_⟩
  exact hmin ⟨c, hc⟩ trivial (TransGen.single hedge)

/-! ## §2. The order. -/

/-- One step of the order: the node taken was waiting and ready. -/
theorem sourcesFirst_succ (g : Digraph κ) (key : κ → Nat) (n : Nat) (waiting : List κ) :
    g.sourcesFirst key (n + 1) waiting = [] ∧ waiting.filter (g.isReady waiting) = [] ∨
      ∃ a ∈ waiting, g.isReady waiting a = true ∧
        g.sourcesFirst key (n + 1) waiting = a :: g.sourcesFirst key n (waiting.erase a) := by
  cases h : leastBy? key (waiting.filter (g.isReady waiting)) with
  | none =>
    exact Or.inl ⟨by simp [sourcesFirst, h], leastBy?_eq_none h⟩
  | some a =>
    obtain ⟨ha, hready⟩ := List.mem_filter.1 (leastBy?_mem h)
    exact Or.inr ⟨a, ha, hready, by simp [sourcesFirst, h]⟩

/-- The list holds every waiting node once. -/
theorem sourcesFirst_perm {g : Digraph κ} (hac : g.Acyclic) (key : κ → Nat) :
    ∀ (n : Nat) (waiting : List κ), waiting.length ≤ n →
      (g.sourcesFirst key n waiting).Perm waiting := by
  intro n
  induction n with
  | zero =>
    intro waiting hlen
    obtain rfl : waiting = [] := List.length_eq_zero_iff.1 (by omega)
    exact List.Perm.refl _
  | succ n ih =>
    intro waiting hlen
    rcases sourcesFirst_succ g key n waiting with
      ⟨hnil, hnone⟩ | ⟨a, ha, -, hcons⟩
    · -- If none is ready, then none waits.
      have : waiting = [] := by
        by_contra hne
        obtain ⟨a, ha, hready⟩ := exists_ready hac hne
        have hmem : a ∈ waiting.filter (g.isReady waiting) := List.mem_filter.2 ⟨ha, hready⟩
        rw [hnone] at hmem
        exact absurd hmem (by simp)
      rw [hnil, this]
    · have hrest : (waiting.erase a).length ≤ n := by
        rw [List.length_erase_of_mem ha]
        omega
      rw [hcons]
      exact ((ih _ hrest).cons a).trans (List.perm_cons_erase ha).symm

theorem sourcesFirst_subset {g : Digraph κ} {key : κ → Nat} :
    ∀ (n : Nat) (waiting : List κ), ∀ a ∈ g.sourcesFirst key n waiting, a ∈ waiting := by
  intro n
  induction n with
  | zero => intro waiting a ha; simp [sourcesFirst] at ha
  | succ n ih =>
    intro waiting a ha
    rcases sourcesFirst_succ g key n waiting with
      ⟨hnil, -⟩ | ⟨b, hb, -, hcons⟩
    · rw [hnil] at ha
      exact absurd ha (by simp)
    · rw [hcons] at ha
      rcases List.mem_cons.1 ha with rfl | ha
      · exact hb
      · exact List.mem_of_mem_erase (ih _ a ha)

/-- No node points to an earlier one or to itself. -/
theorem sourcesFirst_pairwise (g : Digraph κ) (key : κ → Nat) :
    ∀ (n : Nat) (waiting : List κ),
      (g.sourcesFirst key n waiting).Pairwise fun a b => ¬ g.Edge b a := by
  intro n
  induction n with
  | zero => intro waiting; exact List.Pairwise.nil
  | succ n ih =>
    intro waiting
    rcases sourcesFirst_succ g key n waiting with
      ⟨hnil, -⟩ | ⟨a, -, hready, hcons⟩
    · rw [hnil]
      exact List.Pairwise.nil
    · rw [hcons]
      -- The later nodes were all waiting when this one was ready.
      refine List.pairwise_cons.2 ⟨fun b hb => ?_, ih _⟩
      exact isReady_iff.1 hready b (List.mem_of_mem_erase (sourcesFirst_subset _ _ b hb))

/-- Every edge of an acyclic graph leads to a later node. -/
theorem idxOf_lt_of_sourcesFirst {g : Digraph κ} (hg : g.Proper) (hac : g.Acyclic)
    (key : κ → Nat) {a b : κ} (hab : g.Edge a b) :
    (g.sourcesFirst key g.nodes.length g.nodes).idxOf a
      < (g.sourcesFirst key g.nodes.length g.nodes).idxOf b := by
  have hperm := sourcesFirst_perm hac key g.nodes.length g.nodes (Nat.le_refl _)
  have hord := sourcesFirst_pairwise g key g.nodes.length g.nodes
  refine idxOf_lt_of_pairwise hord (fun haa => hac a (TransGen.single haa)) ?_ ?_ hab
  · exact hperm.mem_iff.2 (hg.source_mem hab)
  · exact hperm.mem_iff.2 (hg.target_mem hab)

end LogicBoard.Digraph
