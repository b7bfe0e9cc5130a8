/-
  LogicBoard.Proofs.Compile.Consistency
  ────────────────────────────────
  **PROGRAMS ARE CONSISTENT AS A WHOLE.**

  The types that a type needs are found out twice: by the analysis of
  dependencies, which also puts them in order, and while the class of the
  type is made.  Several errors are there only in case the two disagree.

  They never do.  After the analysis nothing is missing any more, so only a
  template can fail, and what a program says about needed types is what the
  analysis said.

  Main statements:
    • `error_of_typeOrder` — what the analysis can fail at,
    • `error_of_compileTypes` — what can fail after it,
    • `isConsistent_of_compile` — the parts of a program fit together,
    • `compile_consistent` — all of this for every source.
-/
import LogicBoard.Proofs.Compile.Interfaces

namespace LogicBoard

open Relation

/-! ## §1. Errors in classes. -/

namespace Templates

theorem error_of_fill [Template.Engine] {name template : String} {scope : Template.Scope}
    {e : CompileError} (h : fill name template scope = .error e) : e = .template name := by
  unfold fill at h
  split at h
  · exact absurd h (by simp)
  · exact (Except.error.inj h).symm

end Templates

namespace Emit

variable [Template.Engine] {j : Job} {settings : CompileSettings} {debug : Bool} {e : EmittedType}

/-- A chip fails to contribute if its type is not known or its inline code is malformed. -/
theorem error_of_piece {c : Chip} {err : CompileError} (h : piece j c = .error err) :
    j.types.find? c.type = none ∨ ∃ name, err = .template name := by
  unfold piece at h
  split at h
  · rename_i hfind
    exact Or.inl hfind
  · split at h
    · unfold standard at h
      rcases Fallible.bind_error_iff.1 h with hwrite | ⟨code, -, hpure⟩
      · exact Or.inr ⟨_, Templates.error_of_fill hwrite⟩
      · exact absurd hpure Fallible.pure_ne_error
    · exact absurd h (by simp)

/-- The chips of the plan are all there, so only what a wired chip contributes can fail. -/
theorem error_of_run {err : CompileError}
    (h : run j (j.type.content.plan j.owner settings) debug = .error err) :
    (∃ c, j.type.content.Wired c ∧ j.types.find? c.type = none) ∨
      ∃ name, err = .template name := by
  unfold run at h
  rcases Fallible.bind_error_iff.1 h with hchips | ⟨chips, hchips, hrest⟩
  · -- A plan lists wired chips, which the content has.
    obtain ⟨id, hid, hfail⟩ := exists_of_mapM_error hchips
    obtain ⟨c, hc, rfl⟩ := Content.mem_plan_order.1 hid
    rw [plannedChip_ok_iff.2 hc.1] at hfail
    exact absurd hfail (by simp)
  · rcases Fallible.bind_error_iff.1 hrest with hpieces | ⟨pieces, -, hpure⟩
    · obtain ⟨c, hc, hfail⟩ := exists_of_mapM_error hpieces
      have hwired := ((planned_wired (mapM_ok_iff.1 hchips)).2 c).1 hc
      exact (error_of_piece hfail).imp (fun hfind => ⟨c, hwired, hfind⟩) id
    · exact absurd hpure Fallible.pure_ne_error

/-- While the class of a type is made, the types it uses are found. -/
theorem mem_needed_of_run (h : run j (j.type.content.plan j.owner settings) debug = .ok e)
    {u : Name} : u ∈ e.needed ↔ ∃ c, j.type.content.Wired c ∧ c.type = u ∧ j.types.IsComposite u := by
  obtain ⟨chips, pieces, hchips, hpieces, rfl⟩ := run_ok_iff.1 h
  show u ∈ sortedNames (pieces.filterMap (·.needed)) ↔ _
  rw [mem_sortedNames, List.mem_filterMap]
  constructor
  · intro hu
    obtain ⟨p, hp, hpu⟩ := hu
    obtain ⟨c, hc, hpc⟩ := (mem_pieces hchips hpieces).1 hp
    obtain ⟨t, ht, ⟨code, text, -, -, rfl⟩ | ⟨hcode, rfl⟩⟩ := piece_cases hpc
    · exact absurd hpu (by simp)
    · obtain rfl : c.type = u := Option.some.inj hpu
      exact ⟨c, hc, rfl, t, ht, hcode⟩
  · intro hu
    obtain ⟨c, hc, rfl, t, ht, hcode⟩ := hu
    exact ⟨_, (mem_pieces hchips hpieces).2 ⟨c, hc, piece_composite ht hcode⟩, rfl⟩

end Emit

namespace Compiler

variable {c : Compiler} {s : Source} {program : Program}

/-! ## §2. Errors of the analysis. -/

/-- The type is not one to compile a program from: it is not known, or it has inline code. -/
def NoRoot (types : TypeTable) (root : Name) : Prop :=
  types.find? root = none ∨ ∃ t code, types.find? root = some t ∧ t.inlineCode? = some code

theorem noRoot_iff {types : TypeTable} {root : Name} :
    NoRoot types root ↔ ¬ types.IsComposite root := by
  unfold NoRoot TypeTable.IsComposite
  cases types.find? root with
  | none => simp
  | some t => cases hcode : t.inlineCode? <;> simp [hcode]

theorem checkRoot_cases (types : TypeTable) (root : Name) :
    (NoRoot types root ∧ ∃ fault, checkRoot types root = .error (.root root fault)) ∨
      (¬ NoRoot types root ∧ checkRoot types root = .ok ()) := by
  rw [noRoot_iff, not_not]
  unfold checkRoot
  cases hfind : types.find? root with
  | none =>
    left
    refine ⟨?_, _, rfl⟩
    intro hroot
    obtain ⟨t, ht, -⟩ := hroot
    exact absurd (hfind.symm.trans ht) (by simp)
  | some t =>
    rw [TypeTable.isComposite_iff hfind]
    cases hcomposite : t.isComposite with
    | false =>
      left
      exact ⟨by simp, .standard, by simp [hcomposite]⟩
    | true =>
      right
      exact ⟨rfl, by simp [hcomposite]⟩

/-- The analysis fails at the root type, at an unknown type or at a cycle. -/
theorem error_of_typeOrder {types : TypeTable} {root : Name} {e : CompileError}
    (h : typeOrder types root = .error e) :
    (NoRoot types root ∧ ∃ fault, e = .root root fault) ∨
      (¬ NoRoot types root ∧
        ((∃ type owner chip, e = .unknownType type owner chip) ∨ ∃ group, e = .cycle group)) := by
  unfold typeOrder at h
  rcases checkRoot_cases types root with ⟨hno, fault, hroot⟩ | ⟨hroot, hok⟩
  · rw [hroot] at h
    exact Or.inl ⟨hno, fault, (Except.error.inj h).symm⟩
  · right
    refine ⟨hroot, ?_⟩
    rw [hok] at h
    rcases Fallible.bind_error_iff.1 h with hcheck | ⟨-, -, hrest⟩
    · exact absurd hcheck (by simp)
    · rcases Fallible.bind_error_iff.1 hrest with hgraph | ⟨g, -, horder⟩
      · exact Or.inl (TypeTable.error_of_dependencies hgraph)
      · right
        unfold buildOrder at horder
        split at horder
        · exact absurd horder (by simp)
        · exact ⟨_, (Except.error.inj horder).symm⟩

theorem typeOrder_ok_iff {types : TypeTable} {root : Name} {order : List Name} :
    typeOrder types root = .ok order ↔ ¬ NoRoot types root ∧
      ∃ g, types.dependencies root = .ok g ∧ buildOrder g = .ok order := by
  unfold typeOrder
  rcases checkRoot_cases types root with ⟨hno, fault, hroot⟩ | ⟨hroot, hok⟩
  · rw [hroot]
    simp [hno, bind, Except.bind]
  · rw [hok, Fallible.bind_ok_iff]
    simp only [Fallible.bind_ok_iff, exists_const, true_and, hroot, not_false_eq_true]

/-! ## §3. Errors after the analysis. -/

/-- All types that a composite type needs are composite. -/
theorem isComposite_of_needs {types : TypeTable} {root t : Name} (hroot : types.IsComposite root)
    (h : types.Needs root t) : types.IsComposite t := by
  rcases ReflTransGen.cases_tail h with heq | ⟨b, -, body, -, chip, -, -, hcomposite⟩
  · exact heq ▸ hroot
  · exact hcomposite

section Engines

variable [Template.Engine] {g : Digraph Name}

/-- Compiling types stops at one that is not known or that cannot be compiled. -/
theorem exists_of_compileTypes_error {types : TypeTable} {order : List Name} {e : CompileError}
    (h : (c.compileTypes types order).2 = .error e) :
    ∃ name ∈ order, types.find? name = none ∨ ∃ t, types.find? name = some t ∧
      c.compileType ⟨name, t, types⟩ (t.content.plan name c.settings) = .error e := by
  induction order with
  | nil => exact absurd h (by simp [compileTypes])
  | cons name rest ih =>
    unfold compileTypes at h
    cases hfind : types.find? name with
    | none => exact ⟨name, List.mem_cons_self, Or.inl hfind⟩
    | some t =>
      rw [hfind] at h
      dsimp only at h
      cases hcompile : c.compileType ⟨name, t, types⟩ (t.content.plan name c.settings) with
      | error err =>
        rw [hcompile] at h
        obtain rfl : err = e := Except.error.inj h
        exact ⟨name, List.mem_cons_self, Or.inr ⟨t, hfind, hcompile⟩⟩
      | ok compiled =>
        rw [hcompile] at h
        obtain ⟨other, hother, hfail⟩ := ih (Fallible.map_error_iff.1 h)
        exact ⟨other, List.mem_cons_of_mem _ hother, hfail⟩

/-- After the analysis only a template can fail. -/
theorem error_of_compileTypes {types : TypeTable} {root : Name} {order : List Name}
    {e : CompileError} (horder : typeOrder types root = .ok order)
    (h : (c.compileTypes types order).2 = .error e) : ∃ name, e = .template name := by
  obtain ⟨hroot, g, hg, -⟩ := typeOrder_ok_iff.1 horder
  obtain ⟨name, hname, hfail⟩ := exists_of_compileTypes_error h
  have hneeds : types.Needs root name := ((typeOrder_ok horder).mem_iff name).1 hname
  obtain ⟨t, ht, -⟩ := isComposite_of_needs (not_not.1 (noRoot_iff.not.1 hroot)) hneeds
  rcases hfail with hnone | ⟨t', ht', hcompile⟩
  · exact absurd (hnone.symm.trans ht) (by simp)
  · unfold compileType at hcompile
    rcases Fallible.bind_error_iff.1 hcompile with hrun | ⟨emitted, -, hrest⟩
    · rcases Emit.error_of_run hrun with ⟨chip, hchip, hunknown⟩ | htemplate
      · -- The analysis has met all chips of the type before.
        exact absurd ⟨t', ht', hchip, hunknown⟩ (TypeTable.known_of_ok hg hneeds)
      · exact htemplate
    · rcases Fallible.bind_error_iff.1 hrest with hwrite | ⟨code, -, hpure⟩
      · exact ⟨_, Templates.error_of_fill hwrite⟩
      · exact absurd hpure Fallible.pure_ne_error

/-- With the analysis done, a source is compiled or a template fails. -/
theorem compile_cases {order : List Name}
    (horder : typeOrder (knownTypes s) s.chip.type = .ok order) :
    (∃ name, (c.compile s).2 = .error (.template name)) ∨
      ∃ program, (c.compile s).2 = .ok program := by
  cases hresult : (c.compile s).2 with
  | ok program => exact Or.inr ⟨program, rfl⟩
  | error e =>
    left
    unfold compile at hresult
    dsimp only at hresult
    rw [horder] at hresult
    rcases Fallible.bind_error_iff.1 hresult with hcompile | ⟨compiled, -, hassemble⟩
    · obtain ⟨name, rfl⟩ := error_of_compileTypes horder hcompile
      exact ⟨name, rfl⟩
    · unfold assemble at hassemble
      rcases Fallible.bind_error_iff.1 hassemble with hwrite | ⟨code, -, hpure⟩
      · exact ⟨_, congrArg _ (Templates.error_of_fill hwrite)⟩
      · exact absurd hpure Fallible.pure_ne_error

/-! ## §4. Consistent programs. -/

/-- What a program says about one of its types fits the rest of the program. -/
structure FitsIn (c : Compiler) (s : Source) (g : Digraph Name) (program : Program) (name : Name)
    (compiled : CompiledType) : Prop where
  /-- The text is what was written from the class of the type. -/
  code : ∃ t e, c.IsClass s program name t e ∧
    c.templates.writeClass e.context = .ok compiled.code
  /-- The types that were met while the class was made are those that the analysis found. -/
  needed : compiled.needed = neededDirectly g name
  /-- They come before the type. -/
  needed_before : ∀ u ∈ compiled.needed,
    u ∈ program.order ∧ program.order.idxOf u < program.order.idxOf name
  /-- The wired chips are evaluated, each of them once. -/
  order_nodup : compiled.order.Nodup
  mem_order : ∀ id, id ∈ compiled.order ↔
    ∃ t chip, (knownTypes s).find? name = some t ∧ t.content.Wired chip ∧ chip.id = id

/-- The parts of a program fit together, and they fit the graph of the analysis. -/
structure IsConsistent (c : Compiler) (s : Source) (g : Digraph Name) (program : Program) :
    Prop where
  order_nodup : program.order.Nodup
  root_last : program.order.getLast? = some s.chip.type
  mem_needed : ∀ t, t ∈ program.needed ↔ t ∈ program.order
  mem_types : ∀ t, t ∈ program.types.keys ↔ t ∈ program.order
  fits : ∀ name compiled, program.types.find? name = some compiled →
    c.FitsIn s g program name compiled
  /-- The program is written from the texts of its types, in their order. -/
  written : ∃ constants blocks,
    c.templates.writeProgram ⟨s.chip.type.text, Identifier.className s.chip.type, constants, blocks,
      c.settings.debug⟩ = .ok program.code ∧
    blocks.map some = program.order.map fun name => (program.types.find? name).map (·.code)

/-- A compiled type needs the types it uses. -/
theorem mem_needed_of_isCompiled {types : TypeTable} {p : Name × CompiledType}
    (h : c.IsCompiled types p.1 p) {u : Name} : u ∈ p.2.needed ↔ types.Uses p.1 u := by
  obtain ⟨-, t, ht, hcompile⟩ := h
  obtain ⟨e, code, hrun, -, hp⟩ := compileType_ok_iff.1 hcompile
  rw [hp]
  show u ∈ e.needed ↔ _
  rw [Emit.mem_needed_of_run hrun]
  constructor
  · intro hu
    exact ⟨t, ht, hu⟩
  · intro hu
    obtain ⟨t', ht', hchip⟩ := hu
    obtain rfl : t = t' := Option.some.inj (ht.symm.trans ht')
    exact hchip

/-- It lists them as the analysis does. -/
theorem needed_eq {types : TypeTable} {root : Name} (hg : types.dependencies root = .ok g)
    {p : Name × CompiledType} (hneeds : types.Needs root p.1) (h : c.IsCompiled types p.1 p) :
    p.2.needed = neededDirectly g p.1 := by
  have huses : ∀ u, u ∈ p.2.needed ↔ u ∈ g.successors p.1 := by
    intro u
    rw [mem_needed_of_isCompiled h, Digraph.mem_successors]
    show _ ↔ (p.1, u) ∈ g.edges
    rw [(TypeTable.isDependencyGraph_of_ok hg).mem_edges]
    exact (and_iff_right hneeds).symm
  -- Both lists are sorted, so it is enough that they have the same members.
  obtain ⟨-, t, ht, hcompile⟩ := h
  obtain ⟨e, code, hrun, -, hp⟩ := compileType_ok_iff.1 hcompile
  obtain ⟨chips, pieces, -, -, he⟩ := Emit.run_ok_iff.1 hrun
  rw [hp, he] at huses ⊢
  refine sortedNames_congr fun u => ?_
  rw [← huses u]
  exact mem_sortedNames.symm

/-- The types that a program needs are those of its order. -/
theorem mem_needed_iff (h : (c.compile s).2 = .ok program) (t : Name) :
    t ∈ program.needed ↔ t ∈ program.order := by
  have horder := order_of_compile h
  have hroot : s.chip.type ∈ program.order := root_mem_order h
  obtain ⟨order, compiled, -, hcompiled, hassemble⟩ := compile_ok_iff.1 h
  obtain ⟨code, -, rfl⟩ := assemble_ok_iff.1 hassemble
  show t ∈ sortedNames (s.chip.type :: compiled.flatMap (·.2.needed)) ↔ t ∈ compiled.map (·.1)
  rw [mem_sortedNames, List.mem_cons, List.mem_flatMap]
  constructor
  · intro ht
    rcases ht with rfl | ⟨p, hp, ht⟩
    · exact hroot
    · have huses := (mem_needed_of_isCompiled (isCompiled_of_mem hcompiled hp)).1 ht
      have hneeds := (horder.mem_iff p.1).1 (List.mem_map_of_mem hp)
      exact (horder.mem_iff t).2 (hneeds.tail huses)
  · intro ht
    -- A type other than the root is used by a type that was compiled as well.
    rcases ReflTransGen.cases_tail ((horder.mem_iff t).1 ht) with heq | ⟨b, hb, huses⟩
    · exact Or.inl heq
    · obtain ⟨p, hp, rfl⟩ := List.mem_map.1 ((horder.mem_iff b).2 hb)
      exact Or.inr ⟨p, hp, (mem_needed_of_isCompiled (isCompiled_of_mem hcompiled hp)).2 huses⟩

/-- Each type of a program fits in. -/
theorem fitsIn_of_compile (hg : (knownTypes s).dependencies s.chip.type = .ok g)
    (h : (c.compile s).2 = .ok program) {name : Name} {compiled : CompiledType}
    (hfind : program.types.find? name = some compiled) : c.FitsIn s g program name compiled := by
  have horder := order_of_compile h
  obtain ⟨hname, hcompiled⟩ := (types_of_compile h).1 hfind
  have hneeds := (horder.mem_iff name).1 hname
  have huses : ∀ u, u ∈ compiled.needed ↔ (knownTypes s).Uses name u := fun u =>
    mem_needed_of_isCompiled hcompiled
  have hneeded := needed_eq hg hneeds hcompiled
  obtain ⟨-, t, ht, hcompile⟩ := hcompiled
  obtain ⟨e, code, hrun, hwrite, hentry⟩ := compileType_ok_iff.1 hcompile
  obtain rfl : compiled = ⟨code, e.needed, (t.content.plan name c.settings).order⟩ := hentry
  constructor
  case code => exact ⟨t, e, ⟨ht, hrun, _, hfind, hwrite⟩, hwrite⟩
  case needed => exact hneeded
  case needed_before =>
    intro u hu
    have hu := (huses u).1 hu
    exact ⟨(horder.mem_iff u).2 (hneeds.tail hu), horder.uses_before name u hneeds hu⟩
  case order_nodup => exact Content.plan_order_nodup _ _ _
  case mem_order =>
    intro id
    rw [Content.mem_plan_order]
    constructor
    · intro hid
      obtain ⟨chip, hchip, hid⟩ := hid
      exact ⟨t, chip, ht, hchip, hid⟩
    · intro hid
      obtain ⟨t', chip, ht', hchip, hid⟩ := hid
      obtain rfl : t = t' := Option.some.inj (ht.symm.trans ht')
      exact ⟨chip, hchip, hid⟩

/-- The texts of the types, in the order of the program, are what the program is written from. -/
theorem written_of_compile (h : (c.compile s).2 = .ok program) : ∃ constants blocks,
    c.templates.writeProgram ⟨s.chip.type.text, Identifier.className s.chip.type, constants, blocks,
      c.settings.debug⟩ = .ok program.code ∧
    blocks.map some = program.order.map fun name => (program.types.find? name).map (·.code) := by
  have hnodup := (order_of_compile h).nodup
  obtain ⟨order, compiled, -, -, hassemble⟩ := compile_ok_iff.1 h
  obtain ⟨code, hwrite, rfl⟩ := assemble_ok_iff.1 hassemble
  refine ⟨_, _, hwrite, ?_⟩
  show (compiled.map (·.2.code)).map some
    = (compiled.map (·.1)).map fun name => ((Table.ofList compiled).find? name).map (·.code)
  rw [List.map_map, List.map_map]
  refine List.map_congr_left fun p hp => ?_
  show some p.2.code = ((Table.ofList compiled).find? p.1).map (·.code)
  rw [(Table.find?_ofList_eq_some_iff hnodup).2 hp]
  rfl

/-- The parts of a program fit together. -/
theorem isConsistent_of_compile (hg : (knownTypes s).dependencies s.chip.type = .ok g)
    (h : (c.compile s).2 = .ok program) : c.IsConsistent s g program where
  order_nodup := (order_of_compile h).nodup
  root_last := (order_of_compile h).root_last
  mem_needed := mem_needed_iff h
  mem_types t := by
    obtain ⟨order, compiled, -, -, hassemble⟩ := compile_ok_iff.1 h
    obtain ⟨code, -, rfl⟩ := assemble_ok_iff.1 hassemble
    exact Table.mem_keys_ofList
  fits _ _ hfind := fitsIn_of_compile hg h hfind
  written := written_of_compile h

/-- Compiling is consistent for every source.  It fails at the root type exactly if that is not
known or has inline code.  Otherwise, once the analysis has a graph and an order, a program comes
out whose parts fit together and fit the graph, or a template fails, and nothing else happens. -/
theorem compile_consistent (c : Compiler) (s : Source) :
    ((∃ type fault, (c.compile s).2 = .error (.root type fault)) ↔
      NoRoot (knownTypes s) s.chip.type) ∧
    (¬ NoRoot (knownTypes s) s.chip.type → ∀ g order,
      (knownTypes s).dependencies s.chip.type = .ok g → buildOrder g = .ok order →
      (∃ name, (c.compile s).2 = .error (.template name)) ∨
      ∃ program, (c.compile s).2 = .ok program ∧ program.order = order ∧
        c.IsConsistent s g program) := by
  constructor
  · cases horder : typeOrder (knownTypes s) s.chip.type with
    | error e =>
      have hresult : (c.compile s).2 = .error e := by
        unfold compile
        dsimp only
        rw [horder]
      rw [hresult]
      rcases error_of_typeOrder horder with ⟨hno, fault, rfl⟩ | ⟨hroot, hother⟩
      · simp [hno]
      · rcases hother with ⟨type, owner, chip, rfl⟩ | ⟨group, rfl⟩ <;> simp [hroot]
    | ok order =>
      have hroot := (typeOrder_ok_iff.1 horder).1
      rcases compile_cases (c := c) horder with ⟨name, hresult⟩ | ⟨program, hresult⟩ <;>
        simp [hresult, hroot]
  · intro hroot g order hg hbuild
    have horder := typeOrder_ok_iff.2 ⟨hroot, g, hg, hbuild⟩
    refine (compile_cases (c := c) horder).imp id ?_
    rintro ⟨program, hprogram⟩
    refine ⟨program, hprogram, ?_, isConsistent_of_compile hg hprogram⟩
    obtain ⟨order', compiled, horder', hcompiled, hassemble⟩ := compile_ok_iff.1 hprogram
    obtain ⟨code, -, rfl⟩ := assemble_ok_iff.1 hassemble
    obtain rfl : order = order' := Except.ok.inj (horder.symm.trans horder')
    exact map_fst_of_isCompiled hcompiled

end Engines

/-- The program with the counter is consistent. -/
theorem consistent_bench : ∃ g program,
    (knownTypes benchSource).dependencies ⟨"bench"⟩ = .ok g ∧
    (Emit.silent.compile benchSource).2 = .ok program ∧
    program.order = [⟨"counter"⟩, ⟨"bench"⟩] ∧
    Emit.silent.IsConsistent benchSource g program := by
  obtain ⟨program, hprogram, horder⟩ := compile_benchSource
  obtain ⟨order, -, hbuild, -, -⟩ := compile_ok_iff.1 hprogram
  obtain ⟨hroot, g, hg, hbuild⟩ := typeOrder_ok_iff.1 hbuild
  rcases (compile_consistent Emit.silent benchSource).2 hroot g order hg hbuild with
    ⟨name, herror⟩ | ⟨program', hprogram', -, hconsistent⟩
  · exact absurd (herror.symm.trans hprogram) (by simp)
  · obtain rfl : program = program' := Except.ok.inj (hprogram.symm.trans hprogram')
    exact ⟨g, program, hg, hprogram, horder, hconsistent⟩

end Compiler

end LogicBoard
