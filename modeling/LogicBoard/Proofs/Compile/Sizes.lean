/-
  LogicBoard.Proofs.Compile.Sizes
  ────────────────────────────────
  **SIZES RULE OUT CYCLES.**

  The editor asks that every custom chip has a smaller area than the type
  around it.  It looks at one chip at a time and knows nothing of cycles.
  But where no chip is too large, areas fall along every chain of types that
  contain each other, so no chain comes back to where it began.

  Main statements:
    • `tooLarge_mem_problems` — which chips the editor finds too large,
    • `area_lt_of_uses` — one step into a type makes the area smaller,
    • `buildOrder_of_allFit` — the compiler meets no cycle.
-/
import LogicBoard.Edit.Problem
import LogicBoard.Proofs.Compile.Consistency

namespace LogicBoard

open Relation

/-! ## §1. Chips that are too large. -/

/-- The chips that do not fit are listed among all other problems. -/
theorem Content.tooLarge_mem_problems {c : Content} {size : Vec} {types : TypeLookup} {id : Name} :
    .tooLarge id ∈ c.problems size types ↔ .tooLarge id ∈ c.oversizedChips size types := by
  have hwires : .tooLarge id ∉ c.unroutedWires := by simp [unroutedWires]
  rw [problems, List.mem_append, List.mem_append, or_iff_right hwires]
  refine or_iff_left fun hinside => ?_
  -- Problems further in are told apart from those of the content itself.
  obtain ⟨chip, -, hchip⟩ := List.mem_flatMap.1 hinside
  split at hchip
  · obtain ⟨problem, -, heq⟩ := List.mem_map.1 hchip
    exact absurd heq (by simp)
  · exact absurd hchip List.not_mem_nil

/-- A chip does not fit if it is custom and its area is not below that of the type around it. -/
theorem Content.tooLarge_mem_oversizedChips {c : Content} {size : Vec} {types : TypeLookup}
    {id : Name} : .tooLarge id ∈ c.oversizedChips size types ↔
      ∃ chip ∈ c.chips.values, types.isStandard chip.type = false ∧
        size.area ≤ (chip.size types).area ∧ chip.id = id := by
  simp [oversizedChips, customChips, and_assoc, and_left_comm]

namespace TypeTable

variable {types : TypeTable}

/-! ## §2. Areas. -/

/-- The editor finds no chip too large in any composite type of the table. -/
def AllFit (types : TypeTable) : Prop :=
  ∀ name t, types.find? name = some t → t.isComposite = true →
    ∀ id, .tooLarge id ∉ t.content.problems t.size types.lookup

theorem allFit_iff : types.AllFit ↔ ∀ e ∈ types.entries, e.2.isComposite = true →
    e.2.content.oversizedChips e.2.size types.lookup = [] := by
  unfold AllFit
  simp only [Content.tooLarge_mem_problems, Table.find?_eq_some_iff]
  have hnil : ∀ t : ChipType, (∀ id, .tooLarge id ∉ t.content.oversizedChips t.size types.lookup) ↔
      t.content.oversizedChips t.size types.lookup = [] := by
    intro t
    rw [List.eq_nil_iff_forall_not_mem]
    constructor
    · intro h problem hproblem
      obtain ⟨chip, -, rfl⟩ := List.mem_map.1 hproblem
      exact h chip.id hproblem
    · intro h id
      exact h _
  simp only [hnil]
  exact ⟨fun h e => h e.1 e.2, fun h name t => h (name, t)⟩

instance (types : TypeTable) : Decidable types.AllFit := decidable_of_iff _ allFit_iff.symm

/-- The area of the type that a look-up answers with. -/
def areaOf (types : TypeTable) (name : Name) : Int := (types.lookup.get name).size.area

/-- One step into a type makes the area smaller. -/
theorem area_lt_of_uses (h : types.AllFit) {t u : Name} (ht : types.IsComposite t)
    (huse : types.Uses t u) : types.areaOf u < types.areaOf t := by
  obtain ⟨body, hbody, chip, hchip, rfl, inner, hinner, hcode⟩ := huse
  have hcustom : types.lookup.isStandard chip.type = false := by
    show (types.find? chip.type).any (!·.isComposite) = false
    simp [hinner, ChipType.isComposite, hcode]
  have hfits := h t body hbody ((isComposite_iff hbody).1 ht) chip.id
  rw [Content.tooLarge_mem_problems, Content.tooLarge_mem_oversizedChips] at hfits
  have hlt : (chip.size types.lookup).area < body.size.area := by
    refine Int.not_le.1 fun hle => hfits ?_
    exact ⟨chip, (Content.chip?_eq_some_iff.1 hchip.1).1, hcustom, hle, rfl⟩
  unfold areaOf
  rw [Emit.get_of_find? hbody]
  exact hlt

/-- So does every chain of steps. -/
theorem area_lt_of_transGen (h : types.AllFit) {t u : Name} (ht : types.IsComposite t)
    (hchain : TransGen types.Uses t u) : types.areaOf u < types.areaOf t := by
  induction hchain with
  | single huse => exact area_lt_of_uses h ht huse
  | tail hway huse ih =>
    -- Only composite types are used, so the chain can go on from each of them.
    obtain ⟨b, -, -, -, -, -, -, hcomposite⟩ := TransGen.tail'_iff.1 hway
    exact Int.lt_trans (area_lt_of_uses h hcomposite huse) ih

/-- No type contains itself. -/
theorem no_cycle_of_allFit (h : types.AllFit) (t : Name) : ¬ TransGen types.Uses t t := by
  intro hself
  obtain ⟨b, -, -, -, -, -, -, hcomposite⟩ := TransGen.tail'_iff.1 hself
  exact Int.lt_irrefl _ (area_lt_of_transGen h hcomposite hself)

end TypeTable

/-! ## §3. Compiling. -/

namespace Compiler

/-- A cycle is reported only if the graph of the types cannot be put in order. -/
theorem cycle_of_typeOrder {types : TypeTable} {root : Name} {group : List Name}
    (h : typeOrder types root = .error (.cycle group)) :
    ∃ g, types.dependencies root = .ok g ∧ buildOrder g = .error (.cycle group) := by
  unfold typeOrder at h
  rcases Fallible.bind_error_iff.1 h with hroot | ⟨-, -, hrest⟩
  · rcases checkRoot_cases types root with ⟨-, fault, hfail⟩ | ⟨-, hok⟩
    · exact absurd (hfail.symm.trans hroot) (by simp)
    · exact absurd (hok.symm.trans hroot) (by simp)
  · rcases Fallible.bind_error_iff.1 hrest with hgraph | hbuild
    · obtain ⟨type, owner, chip, heq⟩ := TypeTable.error_of_dependencies hgraph
      exact absurd heq (by simp)
    · exact hbuild

/-- If the editor finds no chip too large in the types that a source is compiled with, then the
types that any of them needs can be put in order, and compiling does not fail at a cycle. -/
theorem buildOrder_of_allFit [Template.Engine] (s : Source) (h : (knownTypes s).AllFit) :
    (∀ root g, (knownTypes s).dependencies root = .ok g → ∃ order, buildOrder g = .ok order) ∧
      ∀ c : Compiler, ∀ group, (c.compile s).2 ≠ .error (.cycle group) := by
  have horders : ∀ root g, (knownTypes s).dependencies root = .ok g →
      ∃ order, buildOrder g = .ok order := fun root g hg =>
    (TypeTable.isDependencyGraph_of_ok hg).buildOrder_isOk_iff.2 fun t _ =>
      TypeTable.no_cycle_of_allFit h t
  refine ⟨horders, fun c group hcycle => ?_⟩
  cases horder : typeOrder (knownTypes s) s.chip.type with
  | ok order =>
    -- With the order found, only templates fail.
    rcases compile_cases (c := c) horder with ⟨name, hresult⟩ | ⟨program, hresult⟩ <;>
      simp [hresult] at hcycle
  | error e =>
    have hresult : (c.compile s).2 = .error e := by
      unfold compile
      dsimp only
      rw [horder]
    obtain rfl : e = .cycle group := Except.error.inj (hresult.symm.trans hcycle)
    obtain ⟨g, hg, hbuild⟩ := cycle_of_typeOrder horder
    obtain ⟨order, hok⟩ := horders _ g hg
    exact absurd (hok.symm.trans hbuild) (by simp)

/-- A large type with inline code. -/
def stampType : ChipType :=
  { ChipType.skeleton with size := ⟨5, 5⟩, code := some "s" }

/-- A small type around it.  Sizes of types with inline code do not matter. -/
def kernelType : ChipType :=
  { ChipType.skeleton with
    content := .ofChips .one [.ofPlace ⟨"s"⟩ ⟨"stamp"⟩ .zero]
      [.between ⟨⟨"kernel"⟩, false, "A"⟩ ⟨⟨"s"⟩, false, "A"⟩ 0] }

/-- A type around it that is as high but wider. -/
def shellType : ChipType :=
  { ChipType.skeleton with
    size := ⟨2, 1⟩
    content := .ofChips ⟨2, 1⟩ [.ofPlace ⟨"k"⟩ ⟨"kernel"⟩ .zero]
      [.between ⟨⟨"shell"⟩, false, "A"⟩ ⟨⟨"k"⟩, false, "A"⟩ 0] }

def shellSource : Source :=
  ⟨.ofPlace ⟨"board"⟩ ⟨"shell"⟩ .zero,
    .ofList [(⟨"shell"⟩, shellType), (⟨"kernel"⟩, kernelType), (⟨"stamp"⟩, stampType)]⟩

/-- No chip is too large, so the shell and what is in it can be put in order. -/
theorem buildOrder_shellSource : (knownTypes shellSource).AllFit ∧
    ∃ g, (knownTypes shellSource).dependencies ⟨"shell"⟩ = .ok g ∧
      (∃ order, buildOrder g = .ok order) ∧ buildOrder g = .ok [⟨"kernel"⟩, ⟨"shell"⟩] := by
  have hfit : (knownTypes shellSource).AllFit := by decide +kernel
  have horder : typeOrder (knownTypes shellSource) ⟨"shell"⟩
      = .ok [⟨"kernel"⟩, ⟨"shell"⟩] := by cbv
  obtain ⟨-, g, hg, hbuild⟩ := typeOrder_ok_iff.1 horder
  exact ⟨hfit, g, hg, (buildOrder_of_allFit shellSource hfit).1 _ g hg, hbuild⟩

end Compiler

end LogicBoard
