/-
  LogicBoard.Proofs.Routing.Heap
  ────────────────────────────────
  **THE GREATEST ITEM LEAVES FIRST.**

  The moves of a heap rearrange its items and put them back in order: after
  each of them no item is above the one over it.  So the item in front is a
  greatest one.

  Main statements:
    • `siftUp_ordered`, `sink_ordered` — the moves restore the order,
    • `push_perm`, `push_ordered` — what `push` does,
    • `pop?_spec` — what `pop?` does.
-/
import Mathlib
import LogicBoard.Routing.Heap

namespace LogicBoard.Heap

universe u

variable {α : Type u} {le : α → α → Bool}

/-! ## §1. Orders. -/

/-- Any two items compare, and comparing is transitive. -/
structure IsOrder (le : α → α → Bool) : Prop where
  total : ∀ x y, le x y = true ∨ le y x = true
  trans : ∀ x y z, le x y = true → le y z = true → le x z = true

/-- The item at `k`, if there is one, is not above the item at `p`, if there is one. -/
def Under (le : α → α → Bool) (a : Array α) (k p : Nat) : Prop :=
  ∀ x, a[k]? = some x → ∀ y, a[p]? = some y → le x y = true

/-- No item is above the one over it. -/
def Ordered (le : α → α → Bool) (a : Array α) : Prop :=
  ∀ k, 0 < k → Under le a k ((k - 1) / 2)

/-- The heap is in order but for the item at `i`, which may be above the one over it. -/
structure Rising (le : α → α → Bool) (a : Array α) (i : Nat) : Prop where
  others : ∀ k, 0 < k → k ≠ i → Under le a k ((k - 1) / 2)
  below : 0 < i → ∀ k, 0 < k → (k - 1) / 2 = i → Under le a k ((i - 1) / 2)

/-- The heap is in order but for the item at `i`, which may be anywhere. -/
structure Sinking (le : α → α → Bool) (a : Array α) (i : Nat) : Prop where
  others : ∀ k, 0 < k → k ≠ i → (k - 1) / 2 ≠ i → Under le a k ((k - 1) / 2)
  below : 0 < i → ∀ k, 0 < k → (k - 1) / 2 = i → Under le a k ((i - 1) / 2)

theorem Under.trans (hle : IsOrder le) {a : Array α} {i j k : Nat} (hj : j < a.size)
    (hij : Under le a i j) (hjk : Under le a j k) : Under le a i k := by
  intro x hx z hz
  have hy : a[j]? = some a[j] := Array.getElem?_eq_getElem hj
  exact hle.trans x a[j] z (hij x hx _ hy) (hjk _ hy z hz)

theorem under_of_size_le {a : Array α} {i j : Nat} (hi : a.size ≤ i) : Under le a i j := by
  intro x hx
  rw [Array.getElem?_eq_none hi] at hx
  exact absurd hx (by simp)

theorem under_iff {a : Array α} {i j : Nat} (hi : i < a.size) (hj : j < a.size) :
    Under le a i j ↔ le a[i] a[j] = true := by
  unfold Under
  rw [Array.getElem?_eq_getElem hi, Array.getElem?_eq_getElem hj]
  simp

/-! ## §2. Swaps. -/

/-- Where an item was before a swap. -/
def swapped (i j k : Nat) : Nat := if k = i then j else if k = j then i else k

theorem getElem?_swap {a : Array α} {i j : Nat} (hi : i < a.size) (hj : j < a.size) (k : Nat) :
    (a.swap i j)[k]? = a[swapped i j k]? := by
  rw [Array.getElem?_swap hi hj]
  unfold swapped
  by_cases hki : k = i
  · rw [if_pos hki, hki, Array.getElem?_eq_getElem hj, if_pos rfl]
    split
    · rename_i hji
      subst hji
      rfl
    · rfl
  · rw [if_neg hki, if_neg fun h : i = k => hki h.symm]
    by_cases hkj : k = j
    · rw [if_pos hkj, if_pos hkj.symm, Array.getElem?_eq_getElem hi]
    · rw [if_neg hkj, if_neg fun h : j = k => hkj h.symm]

theorem under_swap {a : Array α} {i j : Nat} (hi : i < a.size) (hj : j < a.size) {k p : Nat} :
    Under le (a.swap i j) k p ↔ Under le a (swapped i j k) (swapped i j p) := by
  unfold Under
  rw [getElem?_swap hi hj, getElem?_swap hi hj]

/-- An item that is above the one over it rises past it. -/
theorem Rising.swap (hle : IsOrder le) {a : Array α} {i : Nat} (h : Rising le a i) (hi : i < a.size)
    (hpos : 0 < i) (hp : (i - 1) / 2 < a.size)
    (habove : Under le a ((i - 1) / 2) i) :
    Rising le (a.swap i ((i - 1) / 2)) ((i - 1) / 2) := by
  constructor
  · intro k hk hne
    rw [under_swap hi hp]
    unfold swapped
    by_cases hki : k = i
    · -- The item that was over it is now below it.
      subst hki
      rw [if_pos rfl, if_neg (by omega), if_pos rfl]
      exact habove
    · rw [if_neg hki, if_neg hne]
      by_cases hpi : (k - 1) / 2 = i
      · -- What was below the item is now below the one it rose past.
        rw [if_pos hpi]
        exact h.below hpos k hk hpi
      · rw [if_neg hpi]
        by_cases hpp : (k - 1) / 2 = (i - 1) / 2
        · rw [if_pos hpp]
          have hkp := h.others k hk hki
          rw [hpp] at hkp
          exact hkp.trans hle hp habove
        · rw [if_neg hpp]
          exact h.others k hk hki
  · intro hppos k hk hparent
    have hup := h.others ((i - 1) / 2) hppos (by omega)
    rw [under_swap hi hp]
    unfold swapped
    rw [if_neg (show ((i - 1) / 2 - 1) / 2 ≠ i by omega),
      if_neg (show ((i - 1) / 2 - 1) / 2 ≠ (i - 1) / 2 by omega)]
    by_cases hki : k = i
    · rw [if_pos hki]
      exact hup
    · rw [if_neg hki, if_neg (by omega)]
      have hkp := h.others k hk hki
      rw [hparent] at hkp
      exact hkp.trans hle hp hup

/-- The greater of the items below one takes its place. -/
theorem Sinking.swap {a : Array α} {i c : Nat} (h : Sinking le a i) (hi : i < a.size)
    (hc : c < a.size) (hpos : 0 < c) (hparent : (c - 1) / 2 = i)
    (hgreater : ∀ k, 0 < k → k ≠ c → (k - 1) / 2 = i → Under le a k c) :
    Sinking le (a.swap i c) c := by
  constructor
  · intro k hk hkc hpc
    rw [under_swap hi hc]
    unfold swapped
    by_cases hki : k = i
    · subst hki
      rw [if_pos rfl, if_neg (by omega), if_neg hpc]
      exact h.below hk c hpos hparent
    · rw [if_neg hki, if_neg hkc, if_neg hpc]
      by_cases hpi : (k - 1) / 2 = i
      · -- The other item below is not above the greater one.
        rw [if_pos hpi]
        exact hgreater k hk hkc hpi
      · rw [if_neg hpi]
        exact h.others k hk hki hpi
  · intro _ k hk hkparent
    rw [under_swap hi hc]
    unfold swapped
    rw [if_neg (show k ≠ i by omega), if_neg (show k ≠ c by omega), hparent, if_pos rfl]
    have hkc := h.others k hk (by omega) (by omega)
    rw [hkparent] at hkc
    exact hkc

/-! ## §3. The moves. -/

theorem siftUp_perm (a : Array α) (i : Nat) (h : i < a.size) : (siftUp le a i h).Perm a := by
  -- Every move is a swap towards the front.
  induction i using Nat.strongRecOn generalizing a with
  | _ i ih =>
    unfold siftUp
    split
    · exact Array.Perm.refl a
    · dsimp only
      split
      · exact Array.Perm.refl a
      · exact (ih _ (by omega) _ _).trans (Array.swap_perm _ _)

/-- Moving the one item that is out of order towards the front restores the order. -/
theorem siftUp_ordered (hle : IsOrder le) (a : Array α) (i : Nat) (h : i < a.size)
    (hr : Rising le a i) : Ordered le (siftUp le a i h) := by
  induction i using Nat.strongRecOn generalizing a with
  | _ i ih =>
    unfold siftUp
    split
    · -- At the very front there is nothing left to be out of order.
      rename_i hzero
      intro k hk
      exact hr.others k hk (by omega)
    · have hp : (i - 1) / 2 < a.size := by omega
      dsimp only
      split
      · rename_i hunder
        intro k hk
        by_cases hki : k = i
        · rw [hki]
          exact (under_iff h hp).2 hunder
        · exact hr.others k hk hki
      · rename_i hpos habove
        refine ih _ (by omega) _ _ (hr.swap hle h (by omega) hp ((under_iff hp h).2 ?_))
        exact (hle.total a[i] a[(i - 1) / 2]).resolve_left habove

theorem sink_perm (a : Array α) (i : Nat) (h : i < a.size) : (sink le a i h).Perm a := by
  -- Every move is a swap towards the back, until the item is moved to the front again.
  induction hn : a.size - i using Nat.strongRecOn generalizing a i with
  | _ n ih =>
    unfold sink
    split
    · split
      · exact (ih _ (by simp; omega) _ _ _ rfl).trans (Array.swap_perm _ _)
      · exact (ih _ (by simp; omega) _ _ _ rfl).trans (Array.swap_perm _ _)
    · split
      · exact (siftUp_perm _ _ _).trans (Array.swap_perm _ _)
      · exact siftUp_perm _ _ _

/-- An item with nothing below it can only be above the one over it. -/
theorem Sinking.rising {a : Array α} {i : Nat} (h : Sinking le a i) (hlast : a.size ≤ 2 * i + 1) :
    Rising le a i := by
  constructor
  · intro k hk hki
    by_cases hki' : (k - 1) / 2 = i
    · exact under_of_size_le (by omega)
    · exact h.others k hk hki hki'
  · exact h.below

/-- Moving an item to the back and from there to its place restores the order. -/
theorem sink_ordered (hle : IsOrder le) (a : Array α) (i : Nat) (h : i < a.size)
    (hs : Sinking le a i) : Ordered le (sink le a i h) := by
  induction hn : a.size - i using Nat.strongRecOn generalizing a i with
  | _ n ih =>
    unfold sink
    split
    · rename_i hright
      have hleft : 2 * i + 1 < a.size := by omega
      split
      · rename_i hgreater
        refine ih _ (by simp; omega) _ _ _ (hs.swap h hright (by omega) (by omega) ?_) rfl
        intro k hk hkc hparent
        obtain rfl : k = 2 * i + 1 := by omega
        exact (under_iff hleft hright).2 hgreater
      · rename_i hgreater
        refine ih _ (by simp; omega) _ _ _ (hs.swap h hleft (by omega) (by omega) ?_) rfl
        intro k hk hkc hparent
        obtain rfl : k = 2 * i + 2 := by omega
        exact (under_iff hright hleft).2 ((hle.total _ _).resolve_left hgreater)
    · split
      · rename_i hright hleft
        refine siftUp_ordered hle _ _ _ (Sinking.rising ?_ (by simp; omega))
        refine hs.swap h hleft (by omega) (by omega) fun k hk hkc hparent => ?_
        exact under_of_size_le (by omega)
      · rename_i hright hleft
        exact siftUp_ordered hle a i h (hs.rising (by omega))

/-! ## §4. Adding and taking. -/

/-- Adding an item adds that item. -/
theorem push_perm (a : Array α) (x : α) : (push le a x).toList.Perm (x :: a.toList) := by
  have hperm : (push le a x).Perm (a.push x) := siftUp_perm _ _ _
  refine hperm.toList.trans ?_
  rw [Array.toList_push]
  exact List.perm_append_singleton x a.toList

theorem mem_push {a : Array α} {x y : α} : y ∈ push le a x ↔ y = x ∨ y ∈ a := by
  rw [← Array.mem_toList_iff, (push_perm a x).mem_iff, List.mem_cons, Array.mem_toList_iff]

theorem size_push (a : Array α) (x : α) : (push le a x).size = a.size + 1 := by
  rw [← Array.length_toList, (push_perm a x).length_eq, List.length_cons, Array.length_toList]

theorem push_ordered (hle : IsOrder le) {a : Array α} (h : Ordered le a) (x : α) :
    Ordered le (push le a x) := by
  refine siftUp_ordered hle _ _ _ ⟨fun k hk hne => ?_, fun _ k hk hparent => ?_⟩
  · by_cases hlt : k < a.size
    · have hkp := h k hk
      rw [under_iff hlt (by omega)] at hkp
      rw [under_iff (by simp; omega) (by simp; omega), Array.getElem_push_lt hlt,
        Array.getElem_push_lt (by omega)]
      exact hkp
    · exact under_of_size_le (by simp; omega)
  · exact under_of_size_le (by simp; omega)

/-- The item in front is a greatest one. -/
theorem le_front (hle : IsOrder le) {a : Array α} (h : Ordered le a) (hpos : 0 < a.size) :
    ∀ x ∈ a, le x a[0] = true := by
  have hfront : ∀ k, Under le a k 0 := by
    intro k
    -- By induction on the index, through the item over each one.
    induction k using Nat.strongRecOn with
    | _ k ih =>
      by_cases hk : k < a.size
      · rcases Nat.eq_zero_or_pos k with rfl | hkpos
        · exact (under_iff hpos hpos).2 ((hle.total _ _).elim id id)
        · exact (h k hkpos).trans hle (by omega) (ih _ (by omega))
      · exact under_of_size_le (by omega)
  intro x hx
  obtain ⟨k, hk, rfl⟩ := Array.mem_iff_getElem.1 hx
  exact (under_iff hk hpos).1 (hfront k)

theorem pop?_eq_none_iff {a : Array α} : pop? le a = none ↔ a = #[] := by
  unfold pop?
  split
  · rename_i hpos
    dsimp only
    have hne : a ≠ #[] := by
      rintro rfl
      simp at hpos
    split <;> simp [hne]
  · rename_i hempty
    exact iff_of_true rfl (Array.size_eq_zero_iff.1 (by omega))

/-- When the last item takes the place of the one in front, no other item is lost. -/
theorem front_perm {a : Array α} (hend : a.size - 1 < a.size) (hrest : 0 < a.pop.size) :
    a.toList.Perm (a.pop[0] :: (a.pop.set 0 a[a.size - 1] hrest).toList) := by
  obtain ⟨l⟩ := a
  -- The items are a first one, those between, and a last one.
  obtain ⟨x, middle, z, rfl⟩ : ∃ x middle z, l = x :: (middle ++ [z]) := by
    cases l with
    | nil => exact absurd hend (Nat.lt_irrefl 0)
    | cons x rest =>
      rcases List.eq_nil_or_concat rest with rfl | ⟨middle, z, rfl⟩
      · exact absurd hrest (Nat.lt_irrefl 0)
      · exact ⟨x, middle, z, by rw [List.concat_eq_append]⟩
  have hpop : (⟨x :: (middle ++ [z])⟩ : Array α).pop = ⟨x :: middle⟩ := by
    rw [← List.cons_append]
    exact congrArg Array.mk List.dropLast_concat
  have hlast : (⟨x :: (middle ++ [z])⟩ : Array α)[(⟨x :: (middle ++ [z])⟩ : Array α).size - 1] = z := by
    simp only [List.size_toArray, List.length_cons, List.length_append, List.length_nil,
      Nat.zero_add, Nat.add_sub_cancel, List.getElem_toArray, List.getElem_cons_succ,
      List.getElem_concat_length]
  simp only [hpop, hlast]
  exact (List.perm_append_singleton z middle).cons x

theorem sinking_set {a : Array α} (h : Ordered le a) (x : α) (hrest : 0 < a.pop.size) :
    Sinking le (a.pop.set 0 x hrest) 0 := by
  constructor
  · intro k hk hk0 hparent
    by_cases hlt : k < a.size - 1
    · have hk' : k < a.pop.size := by rwa [Array.size_pop]
      have hp' : (k - 1) / 2 < a.pop.size := by omega
      have hkp := h k hk
      rw [under_iff (by omega) (by omega)] at hkp
      rw [under_iff (by rwa [Array.size_set]) (by rwa [Array.size_set]),
        Array.getElem_set_ne hrest hk' (by omega), Array.getElem_set_ne hrest hp' (by omega),
        Array.getElem_pop, Array.getElem_pop]
      exact hkp
    · exact under_of_size_le (by simp; omega)
  · intro hzero
    exact absurd hzero (Nat.lt_irrefl 0)

/-- Taking an item takes a greatest one, and only that. -/
theorem pop?_spec (hle : IsOrder le) {a rest : Array α} {x : α} (h : Ordered le a)
    (hpop : pop? le a = some (x, rest)) :
    (∀ y ∈ a, le y x = true) ∧ a.toList.Perm (x :: rest.toList) ∧ Ordered le rest := by
  unfold pop? at hpop
  split at hpop
  · rename_i hpos
    have hfront := le_front hle h hpos
    dsimp only at hpop
    split at hpop
    · rename_i hrest
      obtain ⟨rfl, rfl⟩ := Prod.mk.inj (Option.some.inj hpop)
      refine ⟨?_, ?_, sink_ordered hle _ _ _ (sinking_set h _ hrest)⟩
      · rw [Array.getElem_pop]
        exact hfront
      · exact (front_perm (Nat.sub_lt hpos Nat.one_pos) hrest).trans ((sink_perm _ _ _).toList.symm.cons _)
    · rename_i hrest
      obtain ⟨rfl, rfl⟩ := Prod.mk.inj (Option.some.inj hpop)
      have hsize : a.size = 1 := by
        rw [Array.size_pop] at hrest
        omega
      obtain ⟨y, rfl⟩ := Array.size_eq_one_iff.1 hsize
      refine ⟨fun z hz => ?_, List.Perm.refl _, fun k hk => under_of_size_le (by simp)⟩
      exact hfront z hz
  · exact absurd hpop (by simp)

theorem mem_of_pop? (hle : IsOrder le) {a rest : Array α} {x : α} (h : Ordered le a)
    (hpop : pop? le a = some (x, rest)) {y : α} : y ∈ a ↔ y = x ∨ y ∈ rest := by
  rw [← Array.mem_toList_iff, (pop?_spec hle h hpop).2.1.mem_iff, List.mem_cons,
    Array.mem_toList_iff]

theorem size_of_pop? (hle : IsOrder le) {a rest : Array α} {x : α} (h : Ordered le a)
    (hpop : pop? le a = some (x, rest)) : a.size = rest.size + 1 := by
  rw [← Array.length_toList, (pop?_spec hle h hpop).2.1.length_eq, List.length_cons,
    Array.length_toList]

end LogicBoard.Heap
