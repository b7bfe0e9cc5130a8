/-
  LogicBoard.Proofs.Compile.Programs
  ────────────────────────────────
  **WHAT A PROGRAM CONSISTS OF.**

  A program lists the types that its root needs in a build order, each of
  them compiled with its own plan.  Compiling stops at the first type whose
  class cannot be made or written, so all classes of a program were made.

  Main statements:
    • `typeOrder_ok` — the types of a program are in a build order,
    • `compileTypes_ok_iff` — each of them is compiled,
    • `compile_ok_iff` — when a program is made, and of what.
-/
import Mathlib.Data.List.Forall2
import LogicBoard.Compile.Compiler
import LogicBoard.Proofs.Compile.Dependencies
import LogicBoard.Proofs.Fallible

namespace LogicBoard

/-! ## §1. Build orders. -/

namespace TypeTable

variable {types : TypeTable} {root : Name}

theorem dependencies_spec (types : TypeTable) (root : Name) :
    match types.dependencies root with
    | .error e => ∃ owner c, types.Needs root owner ∧ types.UsesUnknown owner c ∧
        e = .unknownType c.type owner c.id
    | .ok g => types.IsDependencyGraph root g ∧
        ∀ t, types.Needs root t → ∀ c, ¬ types.UsesUnknown t c :=
  discover_spec (types.size + 1) [] _ (Discovering.initial types root) (by simp)

/-- A graph that is found is that of the types the root needs. -/
theorem isDependencyGraph_of_ok {g : Digraph Name} (h : types.dependencies root = .ok g) :
    types.IsDependencyGraph root g := by
  have hspec := dependencies_spec types root
  rw [h] at hspec
  exact hspec.1

/-- With the graph found, no needed type has a wired chip of an unknown type. -/
theorem known_of_ok {g : Digraph Name} (h : types.dependencies root = .ok g) {t : Name}
    (ht : types.Needs root t) {c : Chip} : ¬ types.UsesUnknown t c := by
  have hspec := dependencies_spec types root
  rw [h] at hspec
  exact hspec.2 t ht c

theorem error_of_dependencies {e : CompileError} (h : types.dependencies root = .error e) :
    ∃ type owner chip, e = .unknownType type owner chip := by
  have hspec := dependencies_spec types root
  rw [h] at hspec
  obtain ⟨owner, chip, -, -, he⟩ := hspec
  exact ⟨_, _, _, he⟩

end TypeTable

namespace Compiler

/-- The types of a program are in a build order. -/
theorem typeOrder_ok {types : TypeTable} {root : Name} {order : List Name}
    (h : typeOrder types root = .ok order) : types.IsBuildOrder root order := by
  unfold typeOrder at h
  obtain ⟨-, -, hrest⟩ := Fallible.bind_ok_iff.1 h
  obtain ⟨g, hg, horder⟩ := Fallible.bind_ok_iff.1 hrest
  have hspec := (TypeTable.isDependencyGraph_of_ok hg).buildOrder_spec
  rw [horder] at hspec
  exact hspec

/-! ## §2. Compiled types. -/

variable [Template.Engine] {c : Compiler} {types : TypeTable}

/-- The entry is the type of the name, compiled with its plan. -/
def IsCompiled (c : Compiler) (types : TypeTable) (name : Name) (p : Name × CompiledType) : Prop :=
  p.1 = name ∧ ∃ type, types.find? name = some type ∧
    c.compileType ⟨name, type, types⟩ (type.content.plan name c.settings) = .ok p.2

/-- A type is compiled by making its class and writing it down. -/
theorem compileType_ok_iff {job : Emit.Job} {plan : Plan} {t : CompiledType} :
    c.compileType job plan = .ok t ↔ ∃ emitted code,
      Emit.run job plan c.settings.debug = .ok emitted ∧
      c.templates.writeClass emitted.context = .ok code ∧
      t = ⟨code, emitted.needed, plan.order⟩ := by
  unfold compileType
  rw [Fallible.bind_ok_iff]
  constructor
  · intro h
    obtain ⟨emitted, hrun, hrest⟩ := h
    obtain ⟨code, hcode, ht⟩ := Fallible.bind_ok_iff.1 hrest
    exact ⟨emitted, code, hrun, hcode, (Except.ok.inj ht).symm⟩
  · intro h
    obtain ⟨emitted, code, hrun, hcode, ht⟩ := h
    exact ⟨emitted, hrun, Fallible.bind_ok_iff.2 ⟨code, hcode, congrArg Except.ok ht.symm⟩⟩

/-- Types are compiled in order, each of them or none. -/
theorem compileTypes_ok_iff {order : List Name} {compiled : List (Name × CompiledType)} :
    (c.compileTypes types order).2 = .ok compiled ↔
      List.Forall₂ (c.IsCompiled types) order compiled := by
  induction order generalizing compiled with
  | nil =>
    rw [List.forall₂_nil_left_iff]
    constructor
    · intro h
      exact (Except.ok.inj h).symm
    · intro h
      rw [h]
      rfl
  | cons name rest ih =>
    rw [List.forall₂_cons_left_iff]
    unfold compileTypes
    cases hfind : types.find? name with
    | none =>
      constructor
      · intro h
        exact absurd h (by simp)
      · intro h
        obtain ⟨p, -, ⟨-, type, htype, -⟩, -, -⟩ := h
        exact absurd (hfind.symm.trans htype) (by simp)
    | some type =>
      dsimp only
      cases hcompile : c.compileType ⟨name, type, types⟩ (type.content.plan name c.settings) with
      | error e =>
        -- The first type whose class cannot be made stops everything.
        constructor
        · intro h
          exact absurd h (by simp)
        · intro h
          obtain ⟨p, -, ⟨-, type', htype', hp⟩, -, -⟩ := h
          obtain rfl : type = type' := Option.some.inj (hfind.symm.trans htype')
          exact absurd (hcompile.symm.trans hp) (by simp)
      | ok t =>
        dsimp only
        rw [Fallible.map_ok_iff]
        constructor
        · intro h
          obtain ⟨others, hothers, hcompiled⟩ := h
          exact ⟨(name, t), others, ⟨rfl, type, hfind, hcompile⟩, ih.1 hothers, hcompiled.symm⟩
        · intro h
          obtain ⟨p, others, ⟨hname, type', htype', hp⟩, hothers, hcompiled⟩ := h
          obtain rfl : type = type' := Option.some.inj (hfind.symm.trans htype')
          have ht : t = p.2 := Except.ok.inj (hcompile.symm.trans hp)
          refine ⟨others, ih.2 hothers, ?_⟩
          rw [hcompiled, ht, ← hname]

/-- The entries stand under the names of the order. -/
theorem map_fst_of_isCompiled {order : List Name} {compiled : List (Name × CompiledType)}
    (h : List.Forall₂ (c.IsCompiled types) order compiled) : compiled.map (·.1) = order := by
  induction h with
  | nil => rfl
  | cons hp _ ih => rw [List.map_cons, ih, hp.1]

theorem isCompiled_of_mem {order : List Name} {compiled : List (Name × CompiledType)}
    (h : List.Forall₂ (c.IsCompiled types) order compiled) {p : Name × CompiledType}
    (hp : p ∈ compiled) : c.IsCompiled types p.1 p := by
  induction h with
  | nil => exact absurd hp List.not_mem_nil
  | cons hq _ ih =>
    rcases List.mem_cons.1 hp with rfl | hp
    · exact ⟨rfl, hq.1 ▸ hq.2⟩
    · exact ih hp

/-! ## §3. Programs. -/

/-- A program is put together from compiled types if the template of programs can be written. -/
theorem assemble_ok_iff {s : Source} {compiled : List (Name × CompiledType)} {program : Program} :
    c.assemble s types compiled = .ok program ↔ ∃ code,
      c.templates.writeProgram ⟨s.chip.type.text, Identifier.className s.chip.type,
        (s.chip.resolvedConstants types.lookup).values.map (·.literal), compiled.map (·.2.code),
        c.settings.debug⟩ = .ok code ∧
      program = {
        code
        root := s.chip.type
        order := compiled.map (·.1)
        needed := sortedNames (s.chip.type :: compiled.flatMap (·.2.needed))
        types := .ofList compiled } := by
  unfold assemble
  dsimp only
  rw [Fallible.bind_ok_iff]
  refine exists_congr fun code => and_congr_right fun _ => ?_
  constructor
  · intro h
    exact (Except.ok.inj h).symm
  · intro h
    exact congrArg Except.ok h.symm

/-- When a program is made, and of what. -/
theorem compile_ok_iff {s : Source} {program : Program} :
    (c.compile s).2 = .ok program ↔ ∃ order compiled,
      typeOrder (knownTypes s) s.chip.type = .ok order ∧
      List.Forall₂ (c.IsCompiled (knownTypes s)) order compiled ∧
      c.assemble s (knownTypes s) compiled = .ok program := by
  unfold compile
  dsimp only
  cases horder : typeOrder (knownTypes s) s.chip.type with
  | error e =>
    constructor
    · intro h
      exact absurd h (by simp)
    · intro h
      obtain ⟨order, -, hno, -, -⟩ := h
      exact absurd hno (by simp)
  | ok order =>
    constructor
    · intro h
      obtain ⟨compiled, hcompiled, hassemble⟩ := Fallible.bind_ok_iff.1 h
      exact ⟨order, compiled, rfl, compileTypes_ok_iff.1 hcompiled, hassemble⟩
    · intro h
      obtain ⟨order', compiled, hsame, hcompiled, hassemble⟩ := h
      obtain rfl : order = order' := Except.ok.inj hsame
      exact Fallible.bind_ok_iff.2 ⟨compiled, compileTypes_ok_iff.2 hcompiled, hassemble⟩

/-- A program lists its types in a build order. -/
theorem order_of_compile {s : Source} {program : Program} (h : (c.compile s).2 = .ok program) :
    (knownTypes s).IsBuildOrder s.chip.type program.order := by
  obtain ⟨order, compiled, horder, hcompiled, hassemble⟩ := compile_ok_iff.1 h
  obtain ⟨code, -, hprogram⟩ := assemble_ok_iff.1 hassemble
  rw [hprogram, map_fst_of_isCompiled hcompiled]
  exact typeOrder_ok horder

/-- A program has each type of its order as it was compiled. -/
theorem types_of_compile {s : Source} {program : Program} (h : (c.compile s).2 = .ok program)
    {name : Name} {t : CompiledType} :
    program.types.find? name = some t ↔
      name ∈ program.order ∧ c.IsCompiled (knownTypes s) name (name, t) := by
  have hnodup : program.order.Nodup := (order_of_compile h).nodup
  obtain ⟨order, compiled, -, hcompiled, hassemble⟩ := compile_ok_iff.1 h
  obtain ⟨code, -, rfl⟩ := assemble_ok_iff.1 hassemble
  -- No type is listed twice, so the entries are those that were compiled.
  rw [Table.find?_ofList_eq_some_iff hnodup]
  show _ ↔ name ∈ compiled.map (·.1) ∧ _
  constructor
  · intro hmem
    exact ⟨List.mem_map.2 ⟨_, hmem, rfl⟩, isCompiled_of_mem hcompiled hmem⟩
  · intro hname
    obtain ⟨⟨p, hp, rfl⟩, -, type, htype, ht⟩ := And.imp_left List.mem_map.1 hname
    obtain ⟨-, type', htype', hp'⟩ := isCompiled_of_mem hcompiled hp
    obtain rfl : type = type' := Option.some.inj (htype.symm.trans htype')
    have hsame : p.2 = t := Except.ok.inj (hp'.symm.trans ht)
    exact hsame ▸ hp

end Compiler

end LogicBoard
