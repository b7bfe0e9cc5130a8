/-
  LogicBoard.Proofs.Design.Projection
  ────────────────────────────────
  **WHAT THE CANONICAL FORM KEEPS.**

  Bringing a definition into canonical form is a projection: it ends in the
  canonical definitions, and leaves just these as they are.  On the way no
  port changes its position, the constant slots stay in the order in which
  they first come up, and what is neither a size nor a name is not touched.

  Main statements:
    • `getElem?_fitPorts` — a port list, position by position,
    • `mem_foldl_addSlot`, `idxOf_foldl_addSlot` — which slots are taken, and
      in which order,
    • `canonical_projection` — the canonical form of a definition.
-/
import LogicBoard.Proofs.Design.Canonical

namespace LogicBoard.ChipType

/-! ## §1. Spelling. -/

/-- A name is spelled the one way exactly if spelling it once more changes nothing. -/
theorem isSpelled_iff {s : String} : IsSpelled s ↔ spelled s = s := by
  constructor
  · exact IsSpelled.spelled_eq
  · intro h
    rw [← h]
    exact isSpelled_spelled s

/-! ## §2. Ports. -/

/-- Ports stay at their positions; what is added has no name. -/
theorem getElem?_fitPorts (n : Nat) (ports : List String) (i : Nat) :
    (fitPorts n ports)[i]? = if i < n then some (spelled (ports[i]?.getD "")) else none := by
  by_cases hi : i < n
  · have hentry : (ports.take n ++ List.replicate (n - ports.length) "")[i]?
        = some (ports[i]?.getD "") := by
      by_cases hlength : i < ports.length
      · rw [List.getElem?_append_left (by rw [List.length_take]; omega), List.getElem?_take,
          if_pos hi, List.getElem?_eq_getElem hlength]
        rfl
      · rw [List.getElem?_append_right (by rw [List.length_take]; omega), List.length_take,
          List.getElem?_replicate, if_pos (by omega), List.getElem?_eq_none (by omega)]
        rfl
    unfold fitPorts
    rw [if_pos hi, List.getElem?_map, hentry]
    rfl
  · rw [if_neg hi, List.getElem?_eq_none]
    rw [length_fitPorts]
    omega

/-! ## §3. Constant slots. -/

theorem mem_addSlot_iff {slots : List String} {name s : String} :
    s ∈ addSlot slots name ↔ s ∈ slots ∨ (s = name ∧ s ≠ "") := by
  refine ⟨mem_addSlot, ?_⟩
  unfold addSlot
  split
  · rename_i hkept
    rintro (hold | ⟨rfl, hne⟩)
    · exact hold
    · simpa [hne] using hkept
  · rintro (hold | ⟨rfl, -⟩)
    · exact List.mem_append_left _ hold
    · exact List.mem_append_right _ (List.mem_singleton_self _)

/-- Nothing but empty names and repetitions is left out. -/
theorem mem_foldl_addSlot (l : List String) {s : String} :
    s ∈ l.foldl addSlot [] ↔ s ∈ l ∧ s ≠ "" := by
  induction l using List.reverseRecOn with
  | nil => simp
  | append_singleton l name ih =>
    rw [List.foldl_concat, mem_addSlot_iff, ih, List.mem_append, List.mem_singleton]
    tauto

theorem addSlot_of_mem {slots : List String} {name : String} (h : name ∈ slots ∨ name = "") :
    addSlot slots name = slots := by
  unfold addSlot
  rw [if_pos]
  simpa [or_comm] using h

theorem addSlot_of_not_mem {slots : List String} {name : String}
    (h : ¬ (name ∈ slots ∨ name = "")) : addSlot slots name = slots ++ [name] := by
  unfold addSlot
  rw [if_neg]
  simpa [or_comm] using h

/-- A name that is new to two lists comes behind all others in both of them. -/
theorem idxOf_concat_lt_iff {slots l : List String} {name : String} (hslots : name ∉ slots)
    (hl : name ∉ l) (hsub : ∀ s ∈ slots, s ∈ l)
    (h : ∀ a ∈ slots, ∀ b ∈ slots, slots.idxOf a < slots.idxOf b ↔ l.idxOf a < l.idxOf b) :
    ∀ a ∈ slots ++ [name], ∀ b ∈ slots ++ [name],
      (slots ++ [name]).idxOf a < (slots ++ [name]).idxOf b ↔
        (l ++ [name]).idxOf a < (l ++ [name]).idxOf b := by
  have hend : ∀ {m : List String}, name ∉ m → (m ++ [name]).idxOf name = m.length := by
    intro m hm
    rw [List.idxOf_append_of_notMem hm, List.idxOf_cons_self, Nat.add_zero]
  intro a ha b hb
  rw [List.mem_append, List.mem_singleton] at ha hb
  rcases ha with ha | rfl
  · have hlt := List.idxOf_lt_length_of_mem ha
    have hlt' := List.idxOf_lt_length_of_mem (hsub a ha)
    rw [List.idxOf_append_of_mem ha, List.idxOf_append_of_mem (hsub a ha)]
    rcases hb with hb | rfl
    · rw [List.idxOf_append_of_mem hb, List.idxOf_append_of_mem (hsub b hb)]
      exact h a ha b hb
    · rw [hend hslots, hend hl]
      exact iff_of_true hlt hlt'
  · rw [hend hslots, hend hl]
    rcases hb with hb | rfl
    · have hlt := List.idxOf_lt_length_of_mem hb
      have hlt' := List.idxOf_lt_length_of_mem (hsub b hb)
      rw [List.idxOf_append_of_mem hb, List.idxOf_append_of_mem (hsub b hb)]
      exact iff_of_false (by omega) (by omega)
    · rw [hend hslots, hend hl]
      exact iff_of_false (Nat.lt_irrefl _) (Nat.lt_irrefl _)

/-- Slots stand in the order in which they first come up. -/
theorem idxOf_foldl_addSlot (l : List String) : ∀ a ∈ l.foldl addSlot [],
    ∀ b ∈ l.foldl addSlot [],
      (l.foldl addSlot []).idxOf a < (l.foldl addSlot []).idxOf b ↔ l.idxOf a < l.idxOf b := by
  -- Induction on the names from the first to the last one: each of them has come up before, in
  -- both lists, or it comes behind all others, in both lists.
  induction l using List.reverseRecOn with
  | nil => exact fun a ha => absurd ha List.not_mem_nil
  | append_singleton l name ih =>
    have hsub : ∀ s ∈ l.foldl addSlot [], s ∈ l := fun s hs => ((mem_foldl_addSlot l).1 hs).1
    rw [List.foldl_concat]
    by_cases hkept : name ∈ l.foldl addSlot [] ∨ name = ""
    · rw [addSlot_of_mem hkept]
      intro a ha b hb
      rw [List.idxOf_append_of_mem (hsub a ha), List.idxOf_append_of_mem (hsub b hb)]
      exact ih a ha b hb
    · rw [addSlot_of_not_mem hkept]
      obtain ⟨hnew, hne⟩ := not_or.1 hkept
      have hnew' : name ∉ l := fun hmem => hnew ((mem_foldl_addSlot l).2 ⟨hmem, hne⟩)
      exact idxOf_concat_lt_iff hnew hnew' hsub ih

/-! ## §4. Definitions. -/

/-- What the canonical form of a definition is, and what it keeps of the definition. -/
structure IsFormOf (form t : ChipType) : Prop where
  canonical : form.IsCanonical
  /-- A side that is too short or too long gets the nearest length. -/
  width : form.size.x = max (min t.size.x 1000) 1
  height : form.size.y = max (min t.size.y 1000) 1
  /-- Ports stay at their positions; missing ones have no name. -/
  ports : ∀ output, ∀ i : Nat, (i : Int) < form.size.x + 1 →
    (form.ports output)[i]? = some (spelled ((t.ports output)[i]?.getD ""))
  /-- Only blanks and repetitions are lost of the constant slots. -/
  slots : ∀ c, c ∈ form.constants ↔ c ∈ t.constants.map spelled ∧ c ≠ ""
  /-- Slots stand in the order in which they first come up. -/
  order : ∀ c ∈ form.constants, ∀ d ∈ form.constants,
    form.constants.idxOf c < form.constants.idxOf d ↔
      (t.constants.map spelled).idxOf c < (t.constants.map spelled).idxOf d
  chips : form.content.chips = t.content.chips
  wires : form.content.wires = t.content.wires
  code : form.code = t.code
  kind : form.kind = t.kind
  description : form.description = t.description

theorem isFormOf_canonical (t : ChipType) : IsFormOf t.canonical t := by
  constructor
  case canonical => exact t.isCanonical_canonical
  case width => rfl
  case height => rfl
  case ports =>
    intro output i hi
    have hports : t.canonical.ports output
        = fitPorts (t.canonical.size.x.toNat + 1) (t.ports output) := by
      cases output <;> rfl
    rw [hports, getElem?_fitPorts, if_pos (by omega)]
  case slots => exact fun c => mem_foldl_addSlot (t.constants.map spelled)
  case order => exact idxOf_foldl_addSlot (t.constants.map spelled)
  case chips => rfl
  case wires => rfl
  case code => rfl
  case kind => rfl
  case description => rfl

/-- The canonical form of any definition is canonical and keeps what it is to keep; the definitions
that are their own canonical form are exactly the canonical ones, so that nothing changes the
second time.  A name is the one way it is to be exactly if trimming and upper case leave it as it
is. -/
theorem canonical_projection (t : ChipType) : IsFormOf t.canonical t ∧
    (t.canonical = t ↔ t.IsCanonical) ∧ t.canonical.canonical = t.canonical ∧
    ∀ s, IsSpelled s ↔ spelled s = s := by
  refine ⟨isFormOf_canonical t, ⟨fun h => ?_, canonical_eq⟩,
    canonical_eq t.isCanonical_canonical, fun s => isSpelled_iff⟩
  rw [← h]
  exact t.isCanonical_canonical

/-- Names that fold to one slot come up in between, and the surplus port goes. -/
example : { skeleton with
    inputs := ["a", " b ", "c"]
    constants := ["width", " WIDTH", "", "depth", "Width"] }.canonical.constants
      = ["WIDTH", "DEPTH"] := by decide +kernel

end LogicBoard.ChipType
