/-
  LogicBoard.Proofs.Digraph.Greedy
  ────────────────────────────────
  **ORDERS BY A KEY, AND AMONG EQUAL KEYS BY THE NODES THEMSELVES.**

  The nodes of a graph may have an order of their own, and be listed in it.
  Then a key alone decides which of several nodes goes first: keys are looked
  at from the front to the back, and of two equal ones the earlier counts.

  Main statements:
    • `pairwise_mergeSort` — sorting by a key keeps equal keys in order,
    • `cycles_rising` — groups on common cycles are listed in order,
    • `sourcesFirst_greedy` — of the nodes that can follow the ones taken so
      far, the first one by key and order does.
-/
import LogicBoard.Proofs.Digraph.SourcesFirst

set_option linter.unusedSectionVars false

namespace LogicBoard.Digraph

universe u

variable {κ : Type u} [DecidableEq κ] [LT κ] {key : κ → Nat}

/-! ## §1. Keys. -/

/-- One item goes before another one: its key is less, or they are equal and it is less itself. -/
def GoesBefore (key : κ → Nat) (a b : κ) : Prop := key a < key b ∨ key a = key b ∧ a < b

theorem GoesBefore.key_le {a b : κ} (h : GoesBefore key a b) : key a ≤ key b := by
  rcases h with hlt | ⟨heq, -⟩
  · exact Nat.le_of_lt hlt
  · exact Nat.le_of_eq heq

theorem goesBefore_of_le {a b : κ} (hkey : key a ≤ key b) (hlt : a < b) : GoesBefore key a b := by
  rcases Nat.lt_or_eq_of_le hkey with hless | heq
  · exact Or.inl hless
  · exact Or.inr ⟨heq, hlt⟩

/-- The first item with the least key goes before all others. -/
theorem goesBefore_of_leastBy? {l : List κ} (hl : l.Pairwise (· < ·)) {a : κ}
    (h : leastBy? key l = some a) : ∀ b ∈ l, b = a ∨ GoesBefore key a b := by
  induction l generalizing a with
  | nil => intro b hb; exact absurd hb List.not_mem_nil
  | cons c rest ih =>
    obtain ⟨hc, hrest⟩ := List.pairwise_cons.1 hl
    intro b hb
    unfold leastBy? at h
    split at h
    · rename_i hnone
      obtain rfl : c = a := by simpa using h
      obtain rfl : rest = [] := leastBy?_eq_none hnone
      exact Or.inl (List.mem_singleton.1 hb)
    · rename_i d hd
      split at h
      · rename_i hless
        obtain rfl : d = a := by simpa using h
        rcases List.mem_cons.1 hb with rfl | hb
        · exact Or.inr (Or.inl hless)
        · exact ih hrest hd b hb
      · rename_i hle
        obtain rfl : c = a := by simpa using h
        rcases List.mem_cons.1 hb with rfl | hb
        · exact Or.inl rfl
        · -- The best of the rest has no smaller key, so no item of the rest has.
          have hbest : key d ≤ key b := by
            rcases ih hrest hd b hb with rfl | hbefore
            · exact Nat.le_refl _
            · exact hbefore.key_le
          exact Or.inr (goesBefore_of_le (by omega) (hc b hb))

/-- Sorting by a key keeps items with equal keys in order. -/
theorem pairwise_mergeSort (key : κ → Nat) {l : List κ} (hl : l.Pairwise (· < ·)) :
    (l.mergeSort fun a b => key a ≤ key b).Pairwise (GoesBefore key) := by
  have htrans : ∀ a b c : κ, decide (key a ≤ key b) = true → decide (key b ≤ key c) = true →
      decide (key a ≤ key c) = true := by
    intro a b c hab hbc
    simp only [decide_eq_true_eq] at hab hbc ⊢
    omega
  have htotal : ∀ a b : κ, (decide (key a ≤ key b) || decide (key b ≤ key a)) = true := by
    intro a b
    simp only [Bool.or_eq_true, decide_eq_true_eq]
    omega
  induction l with
  | nil => simp
  | cons a rest ih =>
    obtain ⟨ha, hrest⟩ := List.pairwise_cons.1 hl
    -- The first item enters the sorted rest behind all smaller keys and before all others.
    obtain ⟨front, back, hsorted, hbefore, hfront⟩ := List.mergeSort_cons htrans htotal a rest
    have hkeys := List.pairwise_mergeSort htrans htotal (a :: rest)
    have hwhole := ih hrest
    rw [hsorted] at hkeys ⊢
    rw [hbefore] at hwhole
    obtain ⟨hfrontSorted, hbackSorted, hacross⟩ := List.pairwise_append.1 hwhole
    obtain ⟨-, hbackKeys, -⟩ := List.pairwise_append.1 hkeys
    have hmem : ∀ b ∈ back, b ∈ rest := by
      intro b hb
      rw [← (List.mergeSort_perm rest fun a b => key a ≤ key b).mem_iff, hbefore]
      exact List.mem_append_right front hb
    refine List.pairwise_append.2 ⟨hfrontSorted, List.pairwise_cons.2 ⟨?_, hbackSorted⟩, ?_⟩
    · intro b hb
      have hle := (List.pairwise_cons.1 hbackKeys).1 b hb
      exact goesBefore_of_le (of_decide_eq_true hle) (ha b (hmem b hb))
    · intro b hb d hd
      rcases List.mem_cons.1 hd with rfl | hd
      · have hless := hfront b hb
        simp only [Bool.not_eq_true', decide_eq_false_iff_not] at hless
        exact Or.inl (by omega)
      · exact hacross b hb d hd

/-! ## §2. Groups in order. -/

/-- The members of a component are listed in order. -/
theorem component_rising {g : Digraph κ} (h : g.nodes.Pairwise (· < ·)) (a : κ) :
    (g.component a).Pairwise (· < ·) :=
  h.filter _

/-- Groups on common cycles are listed in order. -/
theorem cycles_rising {g : Digraph κ} (h : g.nodes.Pairwise (· < ·)) :
    g.cycles.Pairwise (· < ·) := by
  unfold cycles
  rw [List.pairwise_filterMap]
  refine h.imp fun {a b} hlt l hl m hm => ?_
  -- A group is listed at its first member, so its first members rise with the nodes.
  dsimp only at hl hm
  split at hl
  · rename_i ha
    split at hm
    · rename_i hb
      obtain rfl := Option.some.inj hl
      obtain rfl := Option.some.inj hm
      rw [Bool.and_eq_true, decide_eq_true_eq] at ha hb
      obtain ⟨restA, hrestA⟩ := List.head?_eq_some_iff.1 ha.1
      obtain ⟨restB, hrestB⟩ := List.head?_eq_some_iff.1 hb.1
      rw [hrestA, hrestB]
      exact List.cons_lt_cons_iff.2 (Or.inl hlt)
    · exact absurd hm (by simp)
  · exact absurd hl (by simp)

/-! ## §3. Taking the first node that can follow. -/

/-- The node waits, and of the waiting nodes all that point to it were taken. -/
def CanFollow (g : Digraph κ) (waiting taken : List κ) (a : κ) : Prop :=
  a ∈ waiting ∧ a ∉ taken ∧ ∀ b ∈ waiting, g.Edge b a → b ∈ taken

/-- Before any node is taken, the ready ones can follow. -/
theorem canFollow_nil {g : Digraph κ} {waiting : List κ} {a : κ} :
    g.CanFollow waiting [] a ↔ a ∈ waiting.filter (g.isReady waiting) := by
  rw [List.mem_filter, isReady_iff]
  constructor
  · intro h
    exact ⟨h.1, fun b hb hedge => List.not_mem_nil (h.2.2 b hb hedge)⟩
  · intro h
    exact ⟨h.1, List.not_mem_nil, fun b hb hedge => absurd hedge (h.2 b hb)⟩

/-- What is taken does not wait any more. -/
theorem canFollow_cons {g : Digraph κ} {waiting taken : List κ} (hwaiting : waiting.Nodup)
    {a b : κ} : g.CanFollow waiting (a :: taken) b ↔ g.CanFollow (waiting.erase a) taken b := by
  unfold CanFollow
  simp only [hwaiting.mem_erase_iff, List.mem_cons, not_or]
  constructor
  · intro h
    refine ⟨⟨h.2.1.1, h.1⟩, h.2.1.2, fun c hc hedge => ?_⟩
    exact (h.2.2 c hc.2 hedge).resolve_left hc.1
  · intro h
    refine ⟨h.1.2, ⟨h.1.1, h.2.1⟩, fun c hc hedge => ?_⟩
    by_cases hca : c = a
    · exact Or.inl hca
    · exact Or.inr (h.2.2 c ⟨hca, hc⟩ hedge)

/-- The node at the front of the list is the best of the ready ones. -/
theorem sourcesFirst_eq_cons {g : Digraph κ} {n : Nat} {waiting : List κ} {a : κ} {rest : List κ}
    (h : g.sourcesFirst key (n + 1) waiting = a :: rest) :
    leastBy? key (waiting.filter (g.isReady waiting)) = some a ∧
      g.sourcesFirst key n (waiting.erase a) = rest := by
  unfold sourcesFirst at h
  split at h
  · exact absurd h (by simp)
  · rename_i b hb
    obtain ⟨rfl, hrest⟩ := List.cons.inj h
    exact ⟨hb, hrest⟩

variable [LE κ] [Std.IsLinearOrder κ] [Std.LawfulOrderLT κ]

/-- In rising order no item is repeated. -/
theorem nodup_of_rising {l : List κ} (h : l.Pairwise (· < ·)) : l.Nodup :=
  h.imp fun hlt heq => absurd (heq ▸ hlt) Std.lt_irrefl

/-- Of the nodes that can follow the ones taken so far, the first one by key and order does. -/
theorem sourcesFirst_greedy (g : Digraph κ) (key : κ → Nat) {n : Nat} {waiting : List κ}
    (hwaiting : waiting.Pairwise (· < ·)) {taken : List κ} {a : κ} {rest : List κ}
    (h : g.sourcesFirst key n waiting = taken ++ a :: rest) :
    g.CanFollow waiting taken a ∧
      ∀ b, g.CanFollow waiting taken b → b = a ∨ GoesBefore key a b := by
  -- By induction on the nodes that were taken before.
  induction taken generalizing n waiting with
  | nil =>
    cases n with
    | zero => exact absurd h (by simp [sourcesFirst])
    | succ n =>
      obtain ⟨hleast, -⟩ := sourcesFirst_eq_cons h
      refine ⟨canFollow_nil.2 (leastBy?_mem hleast), fun b hb => ?_⟩
      exact goesBefore_of_leastBy? (hwaiting.filter _) hleast b (canFollow_nil.1 hb)
  | cons c taken ih =>
    cases n with
    | zero => exact absurd h (by simp [sourcesFirst])
    | succ n =>
      obtain ⟨-, hrest⟩ := sourcesFirst_eq_cons h
      obtain ⟨hfollows, hfirst⟩ := ih (hwaiting.erase c) hrest
      have hnodup := nodup_of_rising hwaiting
      refine ⟨(canFollow_cons hnodup).2 hfollows, fun b hb => ?_⟩
      exact hfirst b ((canFollow_cons hnodup).1 hb)

end LogicBoard.Digraph
