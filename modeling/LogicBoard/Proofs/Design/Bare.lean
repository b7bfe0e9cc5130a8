/-
  LogicBoard.Proofs.Design.Bare
  ────────────────────────────────
  **DEFINITIONS WITHOUT THEIR LAYOUT.**

  Much of a definition is there for those who draw and look at it: where the
  chips are and how they are turned, what is written on them, which way the
  wires take, how high the type is, and chips that no wire touches.  The bare
  definition has none of it.  Two definitions describe one circuit if they
  are the same when they are bare.

  Main statements:
    • `wiredChips_bare` — the wired chips are there, bare as well,
    • `chip?_bare` — no other chips are,
    • `bare_canonical` — the bare form of the canonical form depends on the
      bare form only.
-/
import LogicBoard.Proofs.Design.Content

namespace LogicBoard

/-! ## §1. Chips and wires. -/

/-- The chip without its place and its label. -/
def Chip.bare (c : Chip) : Chip := { c with label := "", pos := .zero, rotation := .r0 }

/-- The wire without its path, as if it had just been made. -/
def Wire.bare (w : Wire) : Wire := .between w.source w.target 0

namespace Content

/-! ## §2. Contents. -/

/-- The chips with wires and all wires, each of them bare. -/
def bare (c : Content) : Content where
  size := .one
  chips := (c.chips.filter fun id _ => c.isWired id).mapValues Chip.bare
  wires := c.wires.map Wire.bare
  keyed := fun e he => by
    obtain ⟨d, hd, rfl⟩ := List.mem_map.1 he
    exact c.keyed d (List.mem_filter.1 hd).1

theorem isWired_bare (c : Content) (id : Name) : c.bare.isWired id = c.isWired id := by
  unfold isWired bare
  rw [List.any_map]
  rfl

/-- Chips with wires are found, and no others. -/
theorem chip?_bare (c : Content) (id : Name) :
    c.bare.chip? id = if c.isWired id then (c.chip? id).map Chip.bare else none := by
  unfold chip? bare
  rw [Table.find?_mapValues, Table.find?_filter]
  cases c.isWired id <;> cases c.chips.find? id <;> rfl

theorem chip?_bare_of_isWired {c : Content} {id : Name} (h : c.isWired id = true) :
    c.bare.chip? id = (c.chip? id).map Chip.bare := by
  rw [chip?_bare, if_pos h]

/-- All chips of the bare content are wired. -/
theorem values_bare (c : Content) : c.bare.chips.values = c.wiredChips.map Chip.bare := by
  unfold wiredChips bare Table.mapValues Table.filter Table.values
  rw [List.map_map, List.filter_map, List.map_map]
  -- Chips stand under their own names, so it does not matter which of the two is asked for.
  have hkeyed : c.chips.entries.filter ((fun chip => c.isWired chip.id) ∘ (·.2))
      = c.chips.entries.filter fun e => c.isWired e.1 :=
    List.filter_congr fun e he => congrArg c.isWired (c.keyed e he)
  rw [hkeyed]
  rfl

theorem wiredChips_bare (c : Content) : c.bare.wiredChips = c.wiredChips.map Chip.bare := by
  have hall : ∀ chip ∈ c.bare.chips.values, c.bare.isWired chip.id = true := by
    intro chip hchip
    rw [values_bare] at hchip
    obtain ⟨d, hd, rfl⟩ := List.mem_map.1 hchip
    rw [isWired_bare]
    exact (List.mem_filter.1 hd).2
  unfold wiredChips at hall ⊢
  rw [List.filter_eq_self.2 hall, values_bare]
  rfl

theorem wired_bare {c : Content} {chip : Chip} (h : c.bare.Wired chip) :
    ∃ d, c.Wired d ∧ d.bare = chip := by
  rw [← mem_wiredChips, wiredChips_bare] at h
  obtain ⟨d, hd, heq⟩ := List.mem_map.1 h
  exact ⟨d, mem_wiredChips.1 hd, heq⟩

theorem bare_bare (c : Content) : c.bare.bare = c.bare := by
  have hchips : c.bare.bare.chips = c.bare.chips := by
    refine Table.ext_find? fun id => ?_
    show c.bare.bare.chip? id = c.bare.chip? id
    rw [chip?_bare, isWired_bare, chip?_bare]
    cases c.isWired id <;> cases c.chip? id <;> rfl
  have hwires : c.bare.bare.wires = c.bare.wires := by
    show (c.wires.map Wire.bare).map Wire.bare = c.wires.map Wire.bare
    rw [List.map_map]
    rfl
  -- The proof of `keyed` is about the chips, so these cannot be rewritten alone.
  revert hchips hwires
  show c.bare.bare.chips = c.bare.chips → c.bare.bare.wires = c.bare.wires →
    (⟨.one, c.bare.bare.chips, c.bare.bare.wires, c.bare.bare.keyed⟩ : Content)
      = ⟨.one, c.bare.chips, c.bare.wires, c.bare.keyed⟩
  intro hchips hwires
  simp only [hchips, hwires]

end Content

namespace ChipType

/-! ## §3. Chip types. -/

/-- The type without what is only drawn or read.  Its width is kept, as there is a port for every
column. -/
def bare (t : ChipType) : ChipType :=
  { t with size := ⟨t.size.x, 1⟩, content := t.content.bare, kind := "", description := "" }

theorem bare_bare (t : ChipType) : t.bare.bare = t.bare := by
  show { t with
    size := ⟨t.size.x, 1⟩, content := t.content.bare.bare, kind := "", description := "" } = t.bare
  rw [t.content.bare_bare]
  rfl

theorem bare_canonical (t : ChipType) : t.canonical.bare = t.bare.canonical.bare := by
  show _ = { t.canonical with
    size := ⟨t.canonical.size.x, 1⟩, content := t.content.bare.bare, kind := "", description := "" }
  rw [t.content.bare_bare]
  rfl

/-- Types that are the same when bare have canonical forms that are. -/
theorem bare_canonical_congr {t u : ChipType} (h : t.bare = u.bare) :
    t.canonical.bare = u.canonical.bare := by
  rw [bare_canonical, h, ← bare_canonical]

end ChipType

/-- All types of a table, bare. -/
def TypeTable.bare (types : TypeTable) : TypeTable := types.mapValues ChipType.bare

theorem TypeTable.find?_bare (types : TypeTable) (name : Name) :
    types.bare.find? name = (types.find? name).map ChipType.bare :=
  Table.find?_mapValues types ChipType.bare name

end LogicBoard
