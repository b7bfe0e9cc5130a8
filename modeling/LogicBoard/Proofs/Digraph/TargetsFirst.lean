/-
  LogicBoard.Proofs.Digraph.TargetsFirst
  ────────────────────────────────
  **ORDERS IN WHICH EVERY NODE COMES AFTER WHAT IT POINTS TO.**

  A depth-first walk finishes a node after all that can be reached from it,
  unless there is a cycle.  So the order of finishing is the wanted order,
  and where an edge contradicts it, the edge closes a cycle.

  Main statements:
    • `finishing_walkFrom` — an edge to a node that was finished later comes
      back from what that node reaches,
    • `targetsFirst_ok` — a listed order holds every node once, and every
      edge leads to an earlier node,
    • `targetsFirst_error` — a group is the component of a node on a cycle.
-/
import LogicBoard.Proofs.Digraph.Reachability

set_option linter.unusedSectionVars false

namespace LogicBoard.Digraph

open Relation

universe u

variable {κ : Type u} [DecidableEq κ]

/-! ## §1. The stack of a walk. -/

/-- The node that a task is about. -/
def Task.node : Task κ → κ
  | .enter a | .finish a => a

/-- The node that a task finishes, if it does. -/
def Task.finished? : Task κ → Option κ
  | .enter _ => none
  | .finish a => some a

/-- The nodes on a stack that were entered and are still to be finished. -/
def pending (stack : List (Task κ)) : List κ := stack.filterMap Task.finished?

@[simp] theorem pending_finish (a : κ) (stack : List (Task κ)) :
    pending (.finish a :: stack) = a :: pending stack := rfl

@[simp] theorem pending_enter (a : κ) (stack : List (Task κ)) :
    pending (.enter a :: stack) = pending stack := rfl

@[simp] theorem pending_enters (bs : List κ) (stack : List (Task κ)) :
    pending (bs.map .enter ++ stack) = pending stack := by
  induction bs with
  | nil => rfl
  | cons b bs ih => rw [List.map_cons, List.cons_append, pending_enter, ih]

theorem mem_pending {a : κ} {stack : List (Task κ)} :
    a ∈ pending stack ↔ .finish a ∈ stack := by
  unfold pending
  rw [List.mem_filterMap]
  constructor
  · rintro ⟨t, ht, h⟩
    cases t with
    | enter b => simp [Task.finished?] at h
    | finish b => obtain rfl : b = a := by simpa [Task.finished?] using h
                  exact ht
  · intro h
    exact ⟨.finish a, h, rfl⟩

/-- A node to be finished on a stack that was just extended is the new one or an older one. -/
theorem split_enters {bs : List κ} {a b : κ} {rest pre post : List (Task κ)}
    (h : bs.map .enter ++ .finish a :: rest = pre ++ .finish b :: post) :
    (pre = bs.map .enter ∧ b = a) ∨
      ∃ pre', pre = bs.map .enter ++ .finish a :: pre' ∧ rest = pre' ++ .finish b :: post := by
  induction bs generalizing pre with
  | nil =>
    cases pre with
    | nil =>
      obtain ⟨h₁, -⟩ := List.cons.inj h
      exact Or.inl ⟨rfl, (Task.finish.inj h₁).symm⟩
    | cons t pre =>
      obtain ⟨rfl, h₂⟩ := List.cons.inj h
      exact Or.inr ⟨pre, rfl, h₂⟩
  | cons c bs ih =>
    cases pre with
    | nil =>
      obtain ⟨h₁, -⟩ := List.cons.inj h
      exact absurd h₁ (by simp)
    | cons t pre =>
      obtain ⟨rfl, h₂⟩ := List.cons.inj h
      rcases ih h₂ with ⟨rfl, hb⟩ | ⟨pre', rfl, hrest⟩
      · exact Or.inl ⟨rfl, hb⟩
      · exact Or.inr ⟨pre', rfl, hrest⟩

/-! ## §2. The order of finishing. -/

/-- The invariant behind the order of finishing.  The nodes that are still to be finished form a
path, and all that lies above one of them on the stack can be reached from it. -/
structure Finishing (g : Digraph κ) (w : Walk κ) (stack : List (Task κ)) : Prop where
  nodup : w.entered.Nodup
  perm : w.entered.Perm (pending stack ++ w.finished)
  /-- What lies above a node can be reached from it. -/
  above : ∀ pre a post, stack = pre ++ .finish a :: post → ∀ t ∈ pre, g.Reaches a t.node
  /-- What a pending node points to is entered or will be before the node is finished. -/
  covered : ∀ pre a post, stack = pre ++ .finish a :: post →
    ∀ b, g.Edge a b → b ∈ w.entered ∨ .enter b ∈ pre
  closed : ∀ p ∈ w.finished, ∀ b, g.Edge p b → b ∈ w.entered
  /-- An edge from a finished node to a pending one closes a cycle. -/
  back : ∀ p ∈ w.finished, ∀ a ∈ pending stack, g.Edge p a → g.Reaches a p
  ordered : w.finished.Pairwise fun a p => g.Edge p a → g.Reaches a p

theorem Finishing.initial (g : Digraph κ) (starts : List κ) :
    Finishing g ⟨[], []⟩ (starts.map .enter) := by
  -- No node is to be finished yet, so what is said of such nodes is empty.
  have hnone : pending (starts.map Task.enter) = [] := by
    simpa [pending] using pending_enters starts []
  have hsplit : ∀ pre a post, starts.map Task.enter ≠ pre ++ .finish a :: post := by
    intro pre a post h
    have : a ∈ pending (starts.map Task.enter) := mem_pending.2 (h ▸ by simp)
    rw [hnone] at this
    exact absurd this (by simp)
  exact {
    nodup := List.nodup_nil
    perm := by simp [hnone]
    above := fun pre a post h => absurd h (hsplit pre a post)
    covered := fun pre a post h => absurd h (hsplit pre a post)
    closed := by simp
    back := by simp
    ordered := List.Pairwise.nil }

theorem Finishing.finish {g : Digraph κ} {w : Walk κ} {a : κ} {stack : List (Task κ)}
    (h : Finishing g w (.finish a :: stack)) :
    Finishing g { w with finished := a :: w.finished } stack where
  nodup := h.nodup
  perm := h.perm.trans (by simpa using List.perm_middle.symm)
  above := by
    intro pre b post hs t ht
    exact h.above (.finish a :: pre) b post (by rw [hs]; rfl) t (List.mem_cons_of_mem _ ht)
  covered := by
    intro pre b post hs c hbc
    exact (h.covered (.finish a :: pre) b post (by rw [hs]; rfl) c hbc).imp id (by simp)
  closed := by
    intro p hp b hpb
    rcases List.mem_cons.1 hp with rfl | hp
    · -- Nothing lies above the node that is finished now.
      exact (h.covered [] p stack rfl b hpb).resolve_right (by simp)
    · exact h.closed p hp b hpb
  back := by
    intro p hp c hc hpc
    rcases List.mem_cons.1 hp with rfl | hp
    · -- The node that is finished lay above all that are still pending.
      obtain ⟨pre, post, hs⟩ := List.append_of_mem (mem_pending.1 hc)
      exact h.above (.finish p :: pre) c post (by rw [hs]; rfl) _ List.mem_cons_self
    · exact h.back p hp c (List.mem_cons_of_mem _ hc) hpc
  ordered := by
    refine List.pairwise_cons.2 ⟨fun p hp hpa => ?_, h.ordered⟩
    exact h.back p hp a List.mem_cons_self hpa

theorem Finishing.enter {g : Digraph κ} {w : Walk κ} {a : κ} {stack : List (Task κ)}
    (hnew : a ∉ w.entered) (h : Finishing g w (.enter a :: stack)) :
    Finishing g { w with entered := a :: w.entered }
      ((g.successors a).map .enter ++ .finish a :: stack) where
  nodup := List.nodup_cons.2 ⟨hnew, h.nodup⟩
  perm := by simpa using h.perm
  above := by
    intro pre b post hs t ht
    rcases split_enters hs with ⟨rfl, rfl⟩ | ⟨pre', rfl, hrest⟩
    · obtain ⟨c, hc, rfl⟩ := List.mem_map.1 ht
      exact ReflTransGen.single (mem_successors.1 hc)
    · -- An older node reaches the new one, and through it what that points to.
      have hold : ∀ t ∈ Task.enter a :: pre', g.Reaches b t.node :=
        h.above (.enter a :: pre') b post (by rw [hrest]; rfl)
      have hba : g.Reaches b a := hold _ List.mem_cons_self
      rcases List.mem_append.1 ht with ht | ht
      · obtain ⟨c, hc, rfl⟩ := List.mem_map.1 ht
        exact hba.tail (mem_successors.1 hc)
      · rcases List.mem_cons.1 ht with rfl | ht
        · exact hba
        · exact hold t (List.mem_cons_of_mem _ ht)
  covered := by
    intro pre b post hs c hbc
    rcases split_enters hs with ⟨rfl, rfl⟩ | ⟨pre', rfl, hrest⟩
    · exact Or.inr (List.mem_map_of_mem (mem_successors.2 hbc))
    · rcases h.covered (.enter a :: pre') b post (by rw [hrest]; rfl) c hbc with hc | hc
      · exact Or.inl (List.mem_cons_of_mem _ hc)
      · rcases List.mem_cons.1 hc with hc | hc
        · obtain rfl : c = a := Task.enter.inj hc
          exact Or.inl List.mem_cons_self
        · exact Or.inr (List.mem_append_right _ (List.mem_cons_of_mem _ hc))
  closed := fun p hp b hpb => List.mem_cons_of_mem _ (h.closed p hp b hpb)
  back := by
    intro p hp c hc hpc
    rw [pending_enters, pending_finish] at hc
    rcases List.mem_cons.1 hc with rfl | hc
    · -- What a finished node points to was entered before.
      exact absurd (h.closed p hp c hpc) hnew
    · exact h.back p hp c hc hpc
  ordered := h.ordered

theorem Finishing.skip {g : Digraph κ} (hg : g.Proper) {w : Walk κ} {a : κ}
    {stack : List (Task κ)} (hold : ¬ (a ∈ g.nodes ∧ a ∉ w.entered))
    (h : Finishing g w (.enter a :: stack)) : Finishing g w stack where
  nodup := h.nodup
  perm := h.perm
  above := by
    intro pre b post hs t ht
    exact h.above (.enter a :: pre) b post (by rw [hs]; rfl) t (List.mem_cons_of_mem _ ht)
  covered := by
    intro pre b post hs c hbc
    rcases h.covered (.enter a :: pre) b post (by rw [hs]; rfl) c hbc with hc | hc
    · exact Or.inl hc
    · rcases List.mem_cons.1 hc with hc | hc
      · -- The node that is skipped is in the graph, so it was entered before.
        obtain rfl : c = a := Task.enter.inj hc
        exact Or.inl (by_contra fun hne => hold ⟨hg.target_mem hbc, hne⟩)
      · exact Or.inr hc
  closed := h.closed
  back := h.back
  ordered := h.ordered

/-- After a walk, an edge to a node that was finished later than where it starts comes back from
what that node reaches. -/
theorem finishing_walkFrom {g : Digraph κ} (hg : g.Proper) (starts : List κ) :
    Finishing g (g.walkFrom starts) [] :=
  walk_induction (fun _ _ _ h => h.finish) (fun _ _ _ _ hnew h => h.enter hnew)
    (fun _ _ _ hold h => h.skip hg hold) _ _ (Finishing.initial g starts)

theorem perm_nodes_of_walk {g : Digraph κ} (hg : g.Proper) :
    (g.walkFrom g.nodes).finished.Perm g.nodes := by
  have hfin := finishing_walkFrom hg g.nodes
  have hperm : (g.walkFrom g.nodes).entered.Perm (g.walkFrom g.nodes).finished := hfin.perm
  -- What was entered was finished, and a walk from all nodes enters all of them.
  refine hperm.symm.trans ((List.perm_ext_iff_of_nodup hfin.nodup hg.nodup).2 fun a => ?_)
  rw [mem_walkFrom_entered hg fun _ hs => hs]
  constructor
  · rintro ⟨s, hs, hsa⟩
    exact hg.mem_of_reaches hs hsa
  · intro ha
    exact ⟨a, ha, ReflTransGen.refl⟩

/-! ## §3. Cycles found by a walk. -/

/-- What was finished before a node, in the order of finishing. -/
theorem takeWhile_ne_of_split {a : κ} {later earlier : List κ}
    (hnd : (later ++ a :: earlier).Nodup) :
    (later ++ a :: earlier).reverse.takeWhile (· ≠ a) = earlier.reverse := by
  have ha : a ∉ earlier := (List.nodup_cons.1 (List.nodup_append.1 hnd).2.1).1
  have hall : ∀ b ∈ earlier.reverse, decide (b ≠ a) = true := by
    intro b hb
    have : b ≠ a := fun e => ha (e ▸ List.mem_reverse.1 hb)
    simpa using this
  rw [List.reverse_append, List.reverse_cons, List.append_assoc,
    List.takeWhile_append_of_pos hall]
  simp

theorem finished_nodup {g : Digraph κ} (hg : g.Proper) : (g.walkFrom g.nodes).finished.Nodup :=
  (perm_nodes_of_walk hg).nodup_iff.2 hg.nodup

theorem onCycle_of_cyclic? {g : Digraph κ} (hg : g.Proper) {a : κ}
    (h : g.cyclic? (g.walkFrom g.nodes) = some a) : g.OnCycle a := by
  unfold cyclic? at h
  split at h
  · rename_i b hb
    obtain rfl : b = a := by simpa using h
    have hloop := List.find?_some hb
    exact TransGen.single (by simpa [Edge] using hloop)
  · obtain ⟨later, earlier, hsplit⟩ := List.append_of_mem (List.mem_of_find?_eq_some h)
    have hnd := finished_nodup hg
    have hord := (finishing_walkFrom hg g.nodes).ordered
    have hedge := List.find?_some h
    rw [hsplit] at hnd hord hedge
    simp only [takeWhile_ne_of_split hnd, List.any_eq_true, Bool.and_eq_true,
      decide_eq_true_eq, List.contains_iff_mem, List.mem_reverse] at hedge
    -- The edge starts at a node that was finished before its target.
    obtain ⟨⟨p, b⟩, he, rfl, hp⟩ := hedge
    have hback : g.Reaches b p :=
      (List.pairwise_cons.1 (List.pairwise_append.1 hord).2.1).1 p hp he
    exact TransGen.tail' hback he

theorem ordered_of_cyclic?_eq_none {g : Digraph κ} (hg : g.Proper)
    (h : g.cyclic? (g.walkFrom g.nodes) = none) :
    (∀ a, ¬ g.Edge a a) ∧
      (g.walkFrom g.nodes).finished.Pairwise fun a p => ¬ g.Edge p a := by
  unfold cyclic? at h
  split at h
  · exact absurd h (by simp)
  · rename_i hloop
    constructor
    · intro a haa
      have ha : a ∈ (g.walkFrom g.nodes).entered :=
        (mem_walkFrom_entered hg fun _ hs => hs).2 ⟨a, hg.source_mem haa, ReflTransGen.refl⟩
      have := List.find?_eq_none.1 hloop a (List.mem_reverse.2 ha)
      exact this (by simpa [Edge] using haa)
    · -- Cut the order at the later node: the earlier one is among those finished before it.
      refine List.pairwise_iff_forall_sublist.2 fun {a p} hsub hpa => ?_
      obtain ⟨front, back, hfb, ha, hp⟩ := List.cons_sublist_iff.1 hsub
      obtain ⟨later, between, rfl⟩ := List.append_of_mem ha
      have hsplit : (g.walkFrom g.nodes).finished = later ++ a :: (between ++ back) := by
        rw [hfb, List.append_assoc, List.cons_append]
      have hnd := finished_nodup hg
      rw [hsplit] at hnd h
      have hno := List.find?_eq_none.1 h a (by simp)
      simp only [takeWhile_ne_of_split hnd, List.any_eq_true, Bool.and_eq_true,
        decide_eq_true_eq, List.contains_iff_mem, List.mem_reverse] at hno
      refine hno ⟨(p, a), hpa, rfl, ?_⟩
      exact List.mem_append_right _ (List.singleton_sublist.1 hp)

/-! ## §4. Orders and groups. -/

/-- An order of the nodes in which every edge leads to an earlier node. -/
structure TargetsFirst (g : Digraph κ) (order : List κ) : Prop where
  perm : order.Perm g.nodes
  idxOf_lt : ∀ {a b}, g.Edge a b → order.idxOf b < order.idxOf a

theorem targetsFirst_ok {g : Digraph κ} (hg : g.Proper) {order : List κ}
    (h : g.targetsFirst = .ok order) : TargetsFirst g order := by
  cases hnone : g.cyclic? (g.walkFrom g.nodes) with
  | some a => simp [targetsFirst, hnone] at h
  | none =>
    obtain rfl : (g.walkFrom g.nodes).finished.reverse = order := by
      simpa [targetsFirst, hnone] using h
    obtain ⟨hirr, hord⟩ := ordered_of_cyclic?_eq_none hg hnone
    have hperm : (g.walkFrom g.nodes).finished.reverse.Perm g.nodes :=
      (List.reverse_perm _).trans (perm_nodes_of_walk hg)
    have hrev : (g.walkFrom g.nodes).finished.reverse.Pairwise fun p a => ¬ g.Edge p a :=
      List.pairwise_reverse.2 hord
    refine ⟨hperm, fun {a b} hab => ?_⟩
    refine idxOf_lt_of_pairwise (R := fun b a => g.Edge a b) hrev (hirr b) ?_ ?_ hab
    · exact hperm.mem_iff.2 (hg.target_mem hab)
    · exact hperm.mem_iff.2 (hg.source_mem hab)

theorem targetsFirst_error {g : Digraph κ} (hg : g.Proper) {group : List κ}
    (h : g.targetsFirst = .error group) :
    ∃ a ∈ g.nodes, g.OnCycle a ∧ group = g.component a := by
  cases ha : g.cyclic? (g.walkFrom g.nodes) with
  | some a =>
    have hcyc := onCycle_of_cyclic? hg ha
    obtain rfl : g.component a = group := by simpa [targetsFirst, ha] using h
    exact ⟨a, hg.mem_of_onCycle hcyc, hcyc, rfl⟩
  | none => simp [targetsFirst, ha] at h

/-- Along a way through the graph, places in the order fall. -/
theorem TargetsFirst.idxOf_lt_of_transGen {g : Digraph κ} {order : List κ}
    (h : TargetsFirst g order) {a b : κ} (hab : TransGen g.Edge a b) :
    order.idxOf b < order.idxOf a := by
  induction hab with
  | single hedge => exact h.idxOf_lt hedge
  | tail _ hedge ih => exact Nat.lt_trans (h.idxOf_lt hedge) ih

/-- A node from which all others can be reached comes last. -/
theorem TargetsFirst.getLast?_eq {g : Digraph κ} (hg : g.Proper) {order : List κ}
    (h : TargetsFirst g order) {root : κ} (hroot : root ∈ g.nodes)
    (hreach : ∀ a ∈ g.nodes, g.Reaches root a) : order.getLast? = some root := by
  have hnd : order.Nodup := h.perm.nodup_iff.2 hg.nodup
  have hne : order ≠ [] := List.ne_nil_of_mem (h.perm.mem_iff.2 hroot)
  rw [List.getLast?_eq_getLast_of_ne_nil hne, Option.some.injEq]
  have hlast : order.getLast hne ∈ g.nodes := h.perm.mem_iff.1 (List.getLast_mem hne)
  rcases reflTransGen_iff_eq_or_transGen.1 (hreach _ hlast) with heq | hway
  · exact heq
  · -- Nothing comes after the last node.
    have hlt := h.idxOf_lt_of_transGen hway
    have hi := List.idxOf_lt_length_of_mem (h.perm.mem_iff.2 hroot)
    rw [List.getLast_eq_getElem, hnd.idxOf_getElem] at hlt
    omega

end LogicBoard.Digraph
