/-
  LogicBoard.Proofs.Design.Content
  ────────────────────────────────
  **CHIPS AND WIRES OF A CONTENT.**

  Every chip stands under its own name, so a content lists the names of its
  chips once.

  Main statements: `chip?_eq_some_iff`, `ofChips_values`, `mem_wiredChips`,
  `live_nodup`.
-/
import LogicBoard.Compile.Order
import LogicBoard.Proofs.Table

namespace LogicBoard

namespace Content

/-- The chip is one of the content's, and some wire ends on it. -/
def Wired (c : Content) (chip : Chip) : Prop :=
  c.chip? chip.id = some chip ∧
    ∃ w ∈ c.wires, w.source.chip = chip.id ∨ w.target.chip = chip.id

/-! ## §1. Chips by name. -/

theorem id_of_chip? {c : Content} {id : Name} {chip : Chip} (h : c.chip? id = some chip) :
    chip.id = id :=
  c.keyed (id, chip) (Table.find?_eq_some_iff.1 h)

theorem chip?_eq_some_iff {c : Content} {id : Name} {chip : Chip} :
    c.chip? id = some chip ↔ chip ∈ c.chips.values ∧ chip.id = id := by
  constructor
  · intro h
    exact ⟨Table.mem_values_iff.2 ⟨id, h⟩, id_of_chip? h⟩
  · rintro ⟨h, rfl⟩
    -- Under whatever name the chip stands, it is its own.
    obtain ⟨k, hk⟩ := Table.mem_values_iff.1 h
    have hid : chip.id = k := id_of_chip? hk
    rw [hid]
    exact hk

theorem contains_iff_chip? {c : Content} {id : Name} :
    c.chips.contains id = true ↔ ∃ chip, c.chip? id = some chip :=
  Table.contains_iff

/-- The names of the chips are the names under which they stand. -/
theorem map_id_values (c : Content) : c.chips.values.map (·.id) = c.chips.keys := by
  unfold Table.values Table.keys
  rw [List.map_map]
  exact List.map_congr_left c.keyed

/-- No chip is there twice. -/
theorem values_nodup (c : Content) : c.chips.values.Nodup := by
  refine List.Nodup.of_map (·.id) ?_
  rw [map_id_values]
  exact c.chips.keys_nodup

theorem ofChips_frame (size : Vec) (chips : List Chip) (wires : List Wire) :
    (ofChips size chips wires).size = size ∧ (ofChips size chips wires).wires = wires ∧
      (ofChips size chips wires).chips = .ofList (chips.map fun chip => (chip.id, chip)) := by
  -- Every chip that is put in enters the table and changes nothing else.
  have hfold : ∀ (chips : List Chip) (c : Content),
      (chips.foldl put c).size = c.size ∧ (chips.foldl put c).chips
        = (chips.map fun chip => (chip.id, chip)).foldl (fun t e => t.insert e.1 e.2) c.chips := by
    intro chips
    induction chips with
    | nil => intro c; exact ⟨rfl, rfl⟩
    | cons chip rest ih => intro c; exact ih (c.put chip)
  exact ⟨(hfold chips (ofSize size)).1, rfl, (hfold chips (ofSize size)).2⟩

/-- A content is made of its own chips and wires again. -/
theorem ofChips_values (c : Content) (size : Vec) :
    ofChips size c.chips.values c.wires = { c with size } := by
  obtain ⟨hsize, hwires, hchips⟩ := ofChips_frame size c.chips.values c.wires
  have hkeyed : (c.chips.values.map fun chip => (chip.id, chip)) = c.chips.entries := by
    unfold Table.values
    rw [List.map_map]
    refine (List.map_congr_left fun e he => ?_).trans (List.map_id _)
    exact Prod.ext (c.keyed e he) rfl
  rw [hkeyed, Table.ofList_entries] at hchips
  revert hsize hwires hchips
  cases ofChips size c.chips.values c.wires
  rintro rfl rfl rfl
  rfl

/-! ## §2. Chips with wires. -/

theorem isWired_iff {c : Content} {id : Name} :
    c.isWired id = true ↔ ∃ w ∈ c.wires, w.source.chip = id ∨ w.target.chip = id := by
  simp [isWired, Wire.usesChip]

theorem mem_wiredChips {c : Content} {chip : Chip} : chip ∈ c.wiredChips ↔ c.Wired chip := by
  unfold wiredChips Wired
  rw [List.mem_filter, isWired_iff, chip?_eq_some_iff]
  simp

theorem mem_live {c : Content} {id : Name} :
    id ∈ c.live ↔ ∃ chip, c.Wired chip ∧ chip.id = id := by
  unfold live
  simp only [List.mem_map, mem_wiredChips]

/-- The names of chips with wires are the wired ones of all names. -/
theorem live_eq_filter (c : Content) : c.live = c.chips.keys.filter (c.isWired ·) := by
  rw [← map_id_values, List.filter_map]
  rfl

theorem live_nodup (c : Content) : c.live.Nodup := by
  rw [live_eq_filter]
  exact c.chips.keys_nodup.filter _

end Content

end LogicBoard
