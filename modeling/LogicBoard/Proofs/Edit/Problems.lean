/-
  LogicBoard.Proofs.Edit.Problems
  ────────────────────────────────
  **WHICH PROBLEMS ARE FOUND.**

  Problems are looked for inside custom chips as long as the types get
  smaller on both axes on the way in.  Types may contain each other, and one
  type can be reached in many ways, so what is found is told by the chains of
  chips on the way: whatever is wrong at the end of a chain is found once for
  that chain, and nothing else is.

  Every step on a chain makes the type narrower.  Widths are coordinates, and
  there is a least one, so chains come to an end.

  Main statements:
    • `Leads.length_le` — how long a chain can be,
    • `Content.problems_eq` — the search, with no regard to the least coordinate,
    • `Level.isListOf_gather` — all findings, from those inside the chips,
    • `Content.problems_exact` — the search ends, and finds what it should.
-/
import Mathlib
import LogicBoard.Edit.Problem
import LogicBoard.Proofs.Design.Content

namespace LogicBoard

/-- The widths of all types are coordinates. -/
def TypeLookup.InRange (types : TypeLookup) : Prop :=
  ∀ name, Content.leastCoordinate ≤ (types.get name).size.x

/-- What holds of all types of a table, and of the one that stands in for the others, holds of
every answer. -/
theorem TypeTable.forall_lookup {P : ChipType → Prop} {types : TypeTable}
    (h : ∀ e ∈ types.entries, P e.2) (hskeleton : P .skeleton) (name : Name) :
    P (types.lookup.get name) := by
  show P ((types.find? name).getD .skeleton)
  cases hfind : types.find? name with
  | none => exact hskeleton
  | some t => exact h (name, t) (Table.find?_eq_some_iff.1 hfind)

/-- A content and the size of the type around it. -/
structure Level where
  content : Content
  size : Vec

variable {types : TypeLookup} {l outer inner : Level}

/-! ## §1. Chains. -/

namespace Level

/-- What is inside a chip. -/
def ofChip (types : TypeLookup) (chip : Chip) : Level :=
  ⟨(types.get chip.type).content, chip.size types⟩

/-- The chip is a custom one of the content, and smaller than the type around it on both axes. -/
structure Enters (types : TypeLookup) (l : Level) (chip : Chip) : Prop where
  present : chip ∈ l.content.chips.values
  custom : types.isStandard chip.type = false
  narrower : (chip.size types).x < l.size.x
  flatter : (chip.size types).y < l.size.y

/-- A chain of chips, from the outside in, leads from one level to another. -/
inductive Leads (types : TypeLookup) : Level → List Chip → Level → Prop where
  | here (l : Level) : Leads types l [] l
  | into {outer inner : Level} {chip : Chip} {chain : List Chip} (enters : Enters types outer chip)
      (rest : Leads types (.ofChip types chip) chain inner) :
      Leads types outer (chip :: chain) inner

/-- Every chip of a chain is narrower than the one before, so a chain has no more chips than there
are widths between the least one and that of the outermost type. -/
theorem Leads.length_le {chain : List Chip} {least : Int}
    (hleast : ∀ name, least ≤ (types.get name).size.x) (h : Leads types outer chain inner) :
    chain.length ≤ (outer.size.x - least).toNat := by
  induction h with
  | here l => exact Nat.zero_le _
  -- Entering a chip uses up at least one width.
  | @into outer inner chip chain enters rest ih =>
    have hnarrower : (chip.size types).x < outer.size.x := enters.narrower
    have hwidth : least ≤ (chip.size types).x := hleast chip.type
    have hrest : chain.length ≤ ((chip.size types).x - least).toNat := ih
    rw [List.length_cons]
    omega

/-! ## §2. Findings. -/

/-- A reason for a problem. -/
inductive Cause where
  /-- A wire, with its place among the wires.  Two wires may be the same in all but their places. -/
  | wire (place : Nat) (w : Wire)
  | chip (c : Chip)

/-- The problem that there is for a reason. -/
def Cause.problem : Cause → Problem
  | wire _ w => .unrouted w.id
  | chip c => .tooLarge c.id

/-- The wire has no route, or the chip is a custom one and its area is not below that of the type
around it. -/
def Cause.IsIn (types : TypeLookup) (l : Level) : Cause → Prop
  | wire place w => l.content.wires[place]? = some w ∧ w.valid = false
  | chip c => c ∈ l.content.chips.values ∧ types.isStandard c.type = false ∧
      l.size.area ≤ (c.size types).area

/-- A chain of chips and what is wrong at its end. -/
structure Finding where
  chain : List Chip
  cause : Cause

namespace Finding

/-- The problem, as it is seen from the outermost type. -/
def problem (f : Finding) : Problem :=
  f.chain.foldr (fun chip => .inside chip.id chip.type) f.cause.problem

/-- The chain leads to where the cause is. -/
def IsOf (types : TypeLookup) (l : Level) (f : Finding) : Prop :=
  ∃ inner, Leads types l f.chain inner ∧ f.cause.IsIn types inner

/-- The finding with one more chip around it. -/
def under (chip : Chip) (f : Finding) : Finding := ⟨chip :: f.chain, f.cause⟩

theorem under_injective (chip : Chip) : Function.Injective (under chip) := by
  rintro ⟨chain, cause⟩ ⟨chain', cause'⟩ h
  obtain ⟨hchain, rfl⟩ := mk.inj h
  obtain rfl := List.tail_eq_of_cons_eq hchain
  rfl

theorem isOf_nil {cause : Cause} : IsOf types l ⟨[], cause⟩ ↔ cause.IsIn types l := by
  constructor
  · rintro ⟨inner, hchain, h⟩
    cases hchain with
    | here => exact h
  · intro h
    exact ⟨l, .here l, h⟩

theorem isOf_cons {chip : Chip} {chain : List Chip} {cause : Cause} :
    IsOf types l ⟨chip :: chain, cause⟩ ↔
      Enters types l chip ∧ IsOf types (.ofChip types chip) ⟨chain, cause⟩ := by
  constructor
  · rintro ⟨inner, hchain, h⟩
    cases hchain with
    | into enters rest => exact ⟨enters, inner, rest, h⟩
  · rintro ⟨enters, inner, rest, h⟩
    exact ⟨inner, .into enters rest, h⟩

end Finding

end Level

/-- How many types a problem is inside of. -/
def Problem.layers : Problem → Nat
  | inside _ _ problem => problem.layers + 1
  | _ => 0

/-- There is one layer for every chip of the chain. -/
theorem Level.Finding.layers_problem (f : Finding) : f.problem.layers = f.chain.length := by
  obtain ⟨chain, cause⟩ := f
  induction chain with
  | nil => cases cause <;> rfl
  | cons chip chain ih => exact congrArg (· + 1) ih

/-! ## §3. One level. -/

namespace Content

theorem mem_customChips_iff {c : Content} {chip : Chip} :
    chip ∈ c.customChips types ↔ chip ∈ c.chips.values ∧ types.isStandard chip.type = false := by
  simp [customChips]

theorem nodup_customChips (types : TypeLookup) (c : Content) : (c.customChips types).Nodup :=
  c.values_nodup.filter _

end Content

namespace Level

/-- What is wrong at a level, the wires first. -/
def causes (types : TypeLookup) (l : Level) : List Cause :=
  (l.content.wires.zipIdx.filter (!·.1.valid)).map (fun e => .wire e.2 e.1) ++
    ((l.content.customChips types).filter fun chip =>
      l.size.area ≤ (chip.size types).area).map .chip

theorem mem_causes_iff {cause : Cause} : cause ∈ l.causes types ↔ cause.IsIn types l := by
  unfold causes
  rw [List.mem_append, List.mem_map, List.mem_map]
  cases cause with
  | wire place w =>
    simp [Cause.IsIn, List.mk_mem_zipIdx_iff_getElem?]
  | chip c =>
    simp [Cause.IsIn, Content.mem_customChips_iff, and_assoc]

theorem nodup_causes (types : TypeLookup) (l : Level) : (l.causes types).Nodup := by
  refine List.nodup_append.2 ⟨?_, ?_, ?_⟩
  · have hplaces : l.content.wires.zipIdx.Nodup := by
      refine List.Nodup.of_map (·.2) ?_
      rw [List.zipIdx_map_snd]
      exact List.nodup_range'
    refine (hplaces.filter _).map fun e e' h => ?_
    injection h with hplace hwire
    exact Prod.ext hwire hplace
  · refine ((Content.nodup_customChips types _).filter _).map fun c c' h => ?_
    exact Cause.chip.inj h
  · intro cause hwire cause' hchip heq
    obtain ⟨e, -, rfl⟩ := List.mem_map.1 hwire
    obtain ⟨c, -, rfl⟩ := List.mem_map.1 hchip
    exact Cause.noConfusion heq

theorem map_problem_causes (types : TypeLookup) (l : Level) :
    (l.causes types).map Cause.problem
      = l.content.unroutedWires ++ l.content.oversizedChips l.size types := by
  have hwires : l.content.wires.filter (!·.valid)
      = (l.content.wires.zipIdx.filter (!·.1.valid)).map (·.1) := by
    conv_lhs => rw [← List.zipIdx_map_fst 0 l.content.wires, List.filter_map]
    rfl
  unfold causes Content.unroutedWires Content.oversizedChips
  rw [List.map_append, List.map_map, List.map_map, hwires, List.map_map]
  rfl

/-- The chips that problems are looked for in. -/
def entered (types : TypeLookup) (l : Level) : List Chip :=
  (l.content.customChips types).filter fun chip =>
    (chip.size types).x < l.size.x && (chip.size types).y < l.size.y

theorem mem_entered_iff {chip : Chip} : chip ∈ l.entered types ↔ Enters types l chip := by
  unfold entered
  rw [List.mem_filter, Content.mem_customChips_iff, Bool.and_eq_true, decide_eq_true_eq,
    decide_eq_true_eq]
  exact ⟨fun ⟨⟨h, hcustom⟩, hx, hy⟩ => ⟨h, hcustom, hx, hy⟩,
    fun ⟨h, hcustom, hx, hy⟩ => ⟨⟨h, hcustom⟩, hx, hy⟩⟩

/-! ## §4. All levels. -/

/-- The list has every finding at a level or further in, and each one once. -/
structure IsListOf (types : TypeLookup) (l : Level) (found : List Finding) : Prop where
  nodup : found.Nodup
  complete : ∀ f, f ∈ found ↔ f.IsOf types l

/-- The findings at a level, if those inside its chips are given. -/
def gather (types : TypeLookup) (l : Level) (inside : Chip → List Finding) : List Finding :=
  (l.causes types).map (⟨[], ·⟩) ++
    (l.entered types).flatMap fun chip => (inside chip).map (.under chip)

variable {inside : Chip → List Finding}

theorem nil_mem_gather {cause : Cause} :
    ⟨[], cause⟩ ∈ l.gather types inside ↔ cause ∈ l.causes types := by
  simp [gather, Finding.under]

theorem cons_mem_gather {chip : Chip} {chain : List Chip} {cause : Cause} :
    ⟨chip :: chain, cause⟩ ∈ l.gather types inside ↔
      chip ∈ l.entered types ∧ ⟨chain, cause⟩ ∈ inside chip := by
  constructor
  · intro h
    rcases List.mem_append.1 h with hhere | hinside
    · obtain ⟨cause', -, heq⟩ := List.mem_map.1 hhere
      exact absurd (congrArg Finding.chain heq).symm (List.cons_ne_nil _ _)
    · obtain ⟨chip', hchip, hmem⟩ := List.mem_flatMap.1 hinside
      obtain ⟨f, hf, heq⟩ := List.mem_map.1 hmem
      cases heq
      exact ⟨hchip, hf⟩
  · rintro ⟨hchip, hf⟩
    exact List.mem_append_right _
      (List.mem_flatMap.2 ⟨chip, hchip, List.mem_map.2 ⟨_, hf, rfl⟩⟩)

theorem nodup_gather (h : ∀ chip ∈ l.entered types, (inside chip).Nodup) :
    (l.gather types inside).Nodup := by
  refine List.nodup_append'.2 ⟨?_, List.nodup_flatMap.2 ⟨?_, ?_⟩, ?_⟩
  · exact (nodup_causes types l).map fun cause cause' heq => congrArg Finding.cause heq
  · intro chip hchip
    exact (h chip hchip).map (Finding.under_injective chip)
  · -- Chains with different first chips are different.
    refine ((Content.nodup_customChips types _).filter _).imp fun hne f hf hf' => ?_
    obtain ⟨g, -, rfl⟩ := List.mem_map.1 hf
    obtain ⟨g', -, heq⟩ := List.mem_map.1 hf'
    exact hne (List.head_eq_of_cons_eq (congrArg Finding.chain heq)).symm
  · intro f hf hf'
    obtain ⟨cause, -, rfl⟩ := List.mem_map.1 hf
    obtain ⟨chip, -, hinside⟩ := List.mem_flatMap.1 hf'
    obtain ⟨g, -, heq⟩ := List.mem_map.1 hinside
    exact List.cons_ne_nil _ _ (congrArg Finding.chain heq)

/-- What is wrong at a level itself and what is found inside its chips are all findings. -/
theorem isListOf_gather
    (h : ∀ chip ∈ l.entered types, IsListOf types (.ofChip types chip) (inside chip)) :
    IsListOf types l (l.gather types inside) := by
  refine ⟨nodup_gather fun chip hchip => (h chip hchip).nodup, ?_⟩
  rintro ⟨chain, cause⟩
  cases chain with
  | nil => rw [nil_mem_gather, mem_causes_iff, Finding.isOf_nil]
  | cons chip chain =>
    rw [cons_mem_gather, Finding.isOf_cons, ← mem_entered_iff]
    exact and_congr_right fun hchip => (h chip hchip).complete _

end Level

namespace Content

open Level

theorem flatMap_filter {α β : Type} (p : α → Bool) (f : α → List β) (l : List α) :
    (l.filter p).flatMap f = l.flatMap fun a => if p a then f a else [] := by
  induction l with
  | nil => rfl
  | cons a l ih =>
    rw [List.filter_cons, List.flatMap_cons, ← ih]
    cases p a <;> rfl

/-- If widths are coordinates, the sizes alone decide where problems are looked for. -/
theorem problems_eq (h : types.InRange) (l : Level) :
    l.content.problems l.size types = (l.causes types).map Cause.problem ++
      (l.entered types).flatMap fun chip =>
        ((ofChip types chip).content.problems (chip.size types) types).map
          (.inside chip.id chip.type) := by
  rw [problems, map_problem_causes, entered, flatMap_filter]
  refine congrArg _ (List.flatMap_congr fun chip _ => ?_)
  have hinside : isInside (chip.size types) l.size =
      ((chip.size types).x < l.size.x && (chip.size types).y < l.size.y) := by
    have hwidth : leastCoordinate ≤ (chip.size types).x := h chip.type
    simp [isInside, hwidth]
  rw [hinside]
  rfl

/-- The problems that are found are those of all findings. -/
theorem exists_findings (h : types.InRange) (c : Content) (size : Vec) :
    ∃ found, IsListOf types ⟨c, size⟩ found ∧
      c.problems size types = found.map Finding.problem := by
  -- By induction along the search: all is found in the chips that it enters.
  induction c, size using problems.induct types with
  | case1 c size ih =>
    have hinside : ∀ chip, chip ∈ entered types ⟨c, size⟩ → ∃ found,
        IsListOf types (.ofChip types chip) found ∧
          (ofChip types chip).content.problems (chip.size types) types
            = found.map Finding.problem := by
      intro chip hchip
      have henters := mem_entered_iff.1 hchip
      refine ih chip ?_
      have hwidth : leastCoordinate ≤ (chip.size types).x := h chip.type
      simp [isInside, hwidth, henters.narrower, henters.flatter]
    choose! inside hlist hproblems using hinside
    refine ⟨_, isListOf_gather hlist, ?_⟩
    rw [problems_eq h ⟨c, size⟩, gather, List.map_append, List.map_map, List.map_flatMap]
    refine congrArg _ (List.flatMap_congr fun chip hchip => ?_)
    rw [hproblems chip hchip, List.map_map, List.map_map]
    rfl

/-- The search for problems ends, since chains do, and it finds each problem once for every chain to
it, and no other ones.  If every type is at least one unit wide, a problem is inside of fewer types
than the outermost type is wide. -/
theorem problems_exact (h : types.InRange) (c : Content) (size : Vec) :
    (∀ chain inner, Leads types ⟨c, size⟩ chain inner →
      chain.length ≤ (size.x - leastCoordinate).toNat) ∧
    (∃ found : List Finding, found.Nodup ∧ (∀ f, f ∈ found ↔ f.IsOf types ⟨c, size⟩) ∧
      c.problems size types = found.map Finding.problem) ∧
    (1 ≤ size.x → (∀ name, 1 ≤ (types.get name).size.x) →
      ∀ problem ∈ c.problems size types, (problem.layers : Int) ≤ size.x - 1) := by
  obtain ⟨found, ⟨hnodup, hcomplete⟩, hproblems⟩ := exists_findings h c size
  refine ⟨fun chain inner hchain => hchain.length_le h, ⟨found, hnodup, hcomplete, hproblems⟩, ?_⟩
  intro hsize hleast problem hproblem
  rw [hproblems] at hproblem
  obtain ⟨f, hf, rfl⟩ := List.mem_map.1 hproblem
  obtain ⟨inner, hchain, -⟩ := (hcomplete f).1 hf
  have hlength : f.chain.length ≤ (size.x - 1).toNat := hchain.length_le hleast
  rw [Finding.layers_problem]
  omega

/-! ## §5. Types that contain each other. -/

/-- A type of three by three units, around itself, a tray and a large standard chip. -/
def boxType : ChipType :=
  { ChipType.skeleton with
    size := ⟨3, 3⟩
    content := .ofChips ⟨3, 3⟩
      [.ofPlace ⟨"b"⟩ ⟨"box"⟩ .zero, .ofPlace ⟨"s"⟩ ⟨"stamp"⟩ .zero,
       .ofPlace ⟨"t"⟩ ⟨"tray"⟩ .zero] [] }

/-- A type of two by two units, around the box, a knob, and two wires without a route between the
same pins. -/
def trayType : ChipType :=
  { ChipType.skeleton with
    size := ⟨2, 2⟩
    content := .ofChips ⟨2, 2⟩
      [.ofPlace ⟨"b"⟩ ⟨"box"⟩ .zero, .ofPlace ⟨"k"⟩ ⟨"knob"⟩ .zero]
      [(Wire.between ⟨⟨"k"⟩, true, "R"⟩ ⟨⟨"k"⟩, false, "A"⟩ 0).cleared,
       (Wire.between ⟨⟨"k"⟩, true, "R"⟩ ⟨⟨"k"⟩, false, "A"⟩ 1).cleared] }

/-- A type of one unit, around the tray. -/
def knobType : ChipType :=
  { ChipType.skeleton with content := .ofChips .one [.ofPlace ⟨"t"⟩ ⟨"tray"⟩ .zero] [] }

def boxTypes : TypeTable :=
  .ofList [(⟨"box"⟩, boxType), (⟨"tray"⟩, trayType), (⟨"knob"⟩, knobType),
    (⟨"stamp"⟩, { ChipType.skeleton with size := ⟨5, 5⟩, code := some "s" })]

/-- A box is looked into once, though it is inside of its tray as well. -/
theorem problems_box : boxTypes.lookup.InRange ∧ ∃ found : List Finding,
    found.Nodup ∧ (∀ f, f ∈ found ↔ f.IsOf boxTypes.lookup ⟨boxType.content, boxType.size⟩) ∧
    found.map Finding.problem =
      [.tooLarge ⟨"b"⟩,
       .inside ⟨"t"⟩ ⟨"tray"⟩ (.unrouted ⟨⟨⟨"k"⟩, true, "R"⟩, ⟨⟨"k"⟩, false, "A"⟩⟩),
       .inside ⟨"t"⟩ ⟨"tray"⟩ (.unrouted ⟨⟨⟨"k"⟩, true, "R"⟩, ⟨⟨"k"⟩, false, "A"⟩⟩),
       .inside ⟨"t"⟩ ⟨"tray"⟩ (.tooLarge ⟨"b"⟩),
       .inside ⟨"t"⟩ ⟨"tray"⟩ (.inside ⟨"k"⟩ ⟨"knob"⟩ (.tooLarge ⟨"t"⟩))] ∧
    ∀ problem ∈ boxType.content.problems boxType.size boxTypes.lookup, problem.layers ≤ 2 := by
  have hrange : boxTypes.lookup.InRange :=
    TypeTable.forall_lookup (P := fun t => leastCoordinate ≤ t.size.x) (by decide) (by decide)
  have hwidths : ∀ name, 1 ≤ (boxTypes.lookup.get name).size.x :=
    TypeTable.forall_lookup (P := fun t => 1 ≤ t.size.x) (by decide) (by decide)
  obtain ⟨-, ⟨found, hnodup, hcomplete, hproblems⟩, hlayers⟩ :=
    problems_exact hrange boxType.content boxType.size
  refine ⟨hrange, found, hnodup, hcomplete, ?_, fun problem hproblem => ?_⟩
  · rw [← hproblems]
    cbv
  · have hlayers := hlayers (by decide) hwidths problem hproblem
    have hwidth : boxType.size.x = 3 := rfl
    omega

end Content

end LogicBoard
