/-
  LogicBoard.Proofs.Compile.Circuit
  ────────────────────────────────
  **ONE CIRCUIT, ONE PROGRAM.**

  The compiler goes from the root type to the types of its wired chips and
  on from there.  What it does not come across does not matter, and of what
  it comes across the layout does not.  The number of types matters least:
  it only bounds the steps of the analysis, which ends before.

  Main statements:
    • `discover_congr` — the discovery depends on reached types only,
    • `compileWith_congr` — and so does all that follows,
    • `compile_circuit` — sources of one circuit compile alike.
-/
import LogicBoard.Proofs.Compile.Layout

namespace LogicBoard

open Relation

/-! ## §1. Reached types. -/

namespace TypeTable

/-- The names that are come across: the root, and from every type the types of its wired chips. -/
inductive Reached (types : TypeTable) (root : Name) : Name → Prop where
  | root : Reached types root root
  | child {t : Name} {body : ChipType} {chip : Chip} (reached : Reached types root t)
      (known : types.find? t = some body) (wired : body.content.Wired chip) :
      Reached types root chip.type

variable {types types' : TypeTable} {root : Name}

theorem reached_of_needs {t : Name} (h : types.Needs root t) : types.Reached root t := by
  induction h with
  | refl => exact .root
  | tail _ huse ih =>
    obtain ⟨body, hbody, chip, hchip, rfl, -⟩ := huse
    exact .child ih hbody hchip

theorem reached_of_bare {t : Name} (h : types.bare.Reached root t) : types.Reached root t := by
  induction h with
  | root => exact .root
  | child _ hknown hwired ih =>
    rw [find?_bare] at hknown
    obtain ⟨body, hbody, rfl⟩ := Option.map_eq_some_iff.1 hknown
    obtain ⟨chip, hchip, rfl⟩ := Content.wired_bare hwired
    show types.Reached root chip.type
    exact .child ih hbody hchip

/-- Both tables say the same of every name that is come across. -/
def AgreeFrom (types types' : TypeTable) (root : Name) : Prop :=
  ∀ name, types.Reached root name → types.find? name = types'.find? name

/-! ## §2. The discovery. -/

theorem meetAll_congr {chips : List Chip} (owner : Name) (d : Discovery)
    (h : ∀ c ∈ chips, types.find? c.type = types'.find? c.type) :
    chips.foldlM (types.meet owner) d = chips.foldlM (types'.meet owner) d := by
  refine Fallible.foldlM_congr d fun c hc d => ?_
  unfold meet
  rw [h c hc]

/-- The discovery goes the same way in both tables, and both bounds on its steps are enough. -/
theorem discover_congr (h : AgreeFrom types types' root) :
    ∀ (fuel fuel' : Nat) (done : List Name) (d : Discovery),
      Discovering types root done d → Discovering types' root done d →
      types.size + 1 ≤ done.length + fuel → types'.size + 1 ≤ done.length + fuel' →
      types.discover fuel d = types'.discover fuel' d := by
  intro fuel
  -- Induction on the steps that are left in the first table.  Every name is looked at once, so in
  -- both tables the names that are done and the steps that are left cover the whole table.
  induction fuel with
  | zero =>
    rintro fuel' done ⟨g, work⟩ hd hd' hfuel hfuel'
    obtain rfl := hd.work_eq_nil hfuel
    rw [discover_nil, discover_nil]
  | succ fuel ih =>
    rintro fuel' done ⟨g, work⟩ hd hd' hfuel hfuel'
    cases work with
    | nil => rw [discover_nil, discover_nil]
    | cons owner work =>
      -- Something is left to be looked at, so the second table allows one more step as well.
      obtain ⟨fuel', rfl⟩ : ∃ n, fuel' = n + 1 := by
        refine Nat.exists_eq_add_one_of_ne_zero fun hzero => ?_
        rw [hzero] at hfuel'
        exact absurd (hd'.work_eq_nil hfuel') (List.cons_ne_nil _ _)
      -- Only names that are needed get into the queue, and the tables agree on those.
      have hreached := reached_of_needs (hd.sound owner hd.owner_mem)
      have hnext : types.size + 1 ≤ (owner :: done).length + fuel := by
        rw [List.length_cons]
        omega
      have hnext' : types'.size + 1 ≤ (owner :: done).length + fuel' := by
        rw [List.length_cons]
        omega
      cases ht : types.find? owner with
      | none =>
        have ht' : types'.find? owner = none := h owner hreached ▸ ht
        rw [discover_cons_none ht, discover_cons_none ht']
        exact ih fuel' (owner :: done) (g, work) (hd.lookPast ht) (hd'.lookPast ht') hnext hnext'
      | some t =>
        have ht' : types'.find? owner = some t := h owner hreached ▸ ht
        have hmeet : t.content.wiredChips.foldlM (types.meet owner) (g, work)
            = t.content.wiredChips.foldlM (types'.meet owner) (g, work) :=
          meetAll_congr owner _ fun c hc => h _ (.child hreached ht (Content.mem_wiredChips.1 hc))
        have hall := meetAll_spec types owner t.content.wiredChips (g, work) hd.proper hd.owner_mem
        have hall' := meetAll_spec types' owner t.content.wiredChips (g, work) hd.proper hd.owner_mem
        rw [discover_cons_some ht, discover_cons_some ht']
        rw [← hmeet] at hall' ⊢
        cases hresult : t.content.wiredChips.foldlM (types.meet owner) (g, work) with
        | error e => rfl
        | ok d =>
          rw [hresult] at hall hall'
          exact ih fuel' (owner :: done) d (hd.lookAt ht hall) (hd'.lookAt ht' hall') hnext hnext'

theorem dependencies_congr (h : AgreeFrom types types' root) :
    types.dependencies root = types'.dependencies root :=
  discover_congr h _ _ [] _ (Discovering.initial types root) (Discovering.initial types' root)
    (by simp) (by simp)

end TypeTable

/-! ## §3. Classes. -/

theorem TypeTable.get_congr {types types' : TypeTable} {name : Name}
    (h : types.find? name = types'.find? name) : types.lookup.get name = types'.lookup.get name :=
  congrArg (·.getD .skeleton) h

theorem Chip.resolvedConstants_congr {types types' : TypeTable} {c : Chip}
    (h : types.find? c.type = types'.find? c.type) :
    c.resolvedConstants types.lookup = c.resolvedConstants types'.lookup := by
  unfold resolvedConstants
  rw [TypeTable.get_congr h]

namespace Emit

variable {types types' : TypeTable} {owner : Name} {type : ChipType}

theorem constantsOf_congr {c : Chip} (h : types.find? c.type = types'.find? c.type) :
    constantsOf ⟨owner, type, types⟩ c = constantsOf ⟨owner, type, types'⟩ c := by
  unfold constantsOf
  rw [Chip.resolvedConstants_congr h]

theorem piece_congr [Template.Engine] {c : Chip} (h : types.find? c.type = types'.find? c.type) :
    piece ⟨owner, type, types⟩ c = piece ⟨owner, type, types'⟩ c := by
  have hconstants : constantsOf ⟨owner, type, types⟩ c = constantsOf ⟨owner, type, types'⟩ c :=
    constantsOf_congr h
  unfold piece
  dsimp only
  rw [h]
  cases types'.find? c.type with
  | none => rfl
  | some t =>
    dsimp only
    cases t.inlineCode? with
    | some code =>
      dsimp only
      unfold standard codeVariables bindingsOf
      rw [hconstants]
      rfl
    | none =>
      dsimp only
      unfold composite bindingsOf
      rw [hconstants]
      rfl

/-- The class of a type depends on the types of its wired chips only. -/
theorem run_congr [Template.Engine] {settings : CompileSettings} {debug : Bool}
    (h : ∀ c, type.content.Wired c → types.find? c.type = types'.find? c.type) :
    run ⟨owner, type, types⟩ (type.content.plan owner settings) debug
      = run ⟨owner, type, types'⟩ (type.content.plan owner settings) debug := by
  unfold run
  show (List.mapM (plannedChip ⟨owner, type, types⟩) _ >>= _)
    = (List.mapM (plannedChip ⟨owner, type, types⟩) _ >>= _)
  cases hchips : (type.content.plan owner settings).order.mapM
      (plannedChip ⟨owner, type, types⟩) with
  | error e => rfl
  | ok chips =>
    -- The chips come from the content; from here on, the table is asked for their types only.
    have hwired := (planned_wired (mapM_ok_iff.1 hchips)).2
    have hpieces : chips.mapM (piece ⟨owner, type, types⟩)
        = chips.mapM (piece ⟨owner, type, types'⟩) :=
      Fallible.mapM_congr fun c hc => piece_congr (h c ((hwired c).1 hc))
    have hpins : chipPins ⟨owner, type, types⟩ chips = chipPins ⟨owner, type, types'⟩ chips :=
      List.flatMap_congr fun c hc =>
        congrArg (portVariables c.id) (TypeTable.get_congr (h c ((hwired c).1 hc)))
    show (chips.mapM (piece ⟨owner, type, types⟩) >>= _)
      = (chips.mapM (piece ⟨owner, type, types'⟩) >>= _)
    rw [hpieces]
    refine congrArg _ (funext fun pieces => congrArg Except.ok ?_)
    unfold assemble
    rw [hpins]
    rfl

end Emit

/-! ## §4. Programs. -/

namespace Compiler

variable {types types' : TypeTable} {root : Name}

theorem typeOrder_congr (h : types.AgreeFrom types' root) :
    typeOrder types root = typeOrder types' root := by
  unfold typeOrder checkRoot
  rw [h root .root, TypeTable.dependencies_congr h]

theorem compileTypes_congr [Template.Engine] (c : Compiler) (h : types.AgreeFrom types' root)
    {order : List Name} (horder : ∀ name ∈ order, types.Reached root name) :
    c.compileTypes types order = c.compileTypes types' order := by
  induction order with
  | nil => rfl
  | cons name rest ih =>
    obtain ⟨hname, hrest⟩ := List.forall_mem_cons.1 horder
    unfold compileTypes
    rw [← h name hname, ih hrest]
    cases hfind : types.find? name with
    | none => rfl
    | some type =>
      have htype : c.compileType ⟨name, type, types⟩ (type.content.plan name c.settings)
          = c.compileType ⟨name, type, types'⟩ (type.content.plan name c.settings) := by
        unfold compileType
        rw [Emit.run_congr fun chip hchip => h _ (.child hname hfind hchip)]
      dsimp only
      rw [htype]

theorem assemble_congr [Template.Engine] (c : Compiler) {s s' : Source}
    (htype : s.chip.type = s'.chip.type) (hconstants : s.chip.constants = s'.chip.constants)
    (h : types.find? s.chip.type = types'.find? s.chip.type) :
    c.assemble s types = c.assemble s' types' := by
  have hresolved : s.chip.resolvedConstants types.lookup
      = s'.chip.resolvedConstants types'.lookup := by
    rw [Chip.resolvedConstants_congr h]
    unfold Chip.resolvedConstants
    rw [htype, hconstants]
  unfold assemble
  rw [hresolved, htype]

/-- Compiling depends on the types that are come across, and of the root chip on its type and its
constants. -/
theorem compileWith_congr [Template.Engine] (c : Compiler) {s s' : Source}
    (htype : s.chip.type = s'.chip.type) (hconstants : s.chip.constants = s'.chip.constants)
    (h : types.AgreeFrom types' s.chip.type) :
    c.compileWith s types = c.compileWith s' types' := by
  unfold compileWith
  rw [← htype, ← typeOrder_congr h]
  cases horder : typeOrder types s.chip.type with
  | error e => rfl
  | ok order =>
    have hreached : ∀ name ∈ order, types.Reached s.chip.type name := fun name hname =>
      TypeTable.reached_of_needs (((typeOrder_ok horder).mem_iff name).1 hname)
    dsimp only
    rw [compileTypes_congr c h hreached, assemble_congr c htype hconstants (h _ .root)]

/-! ## §5. Sources. -/

/-- Standard types cannot be redefined; all others are brought into canonical form. -/
theorem find?_knownTypes (s : Source) (name : Name) : (knownTypes s).find? name
    = (Library.standard.find? name).or ((s.types.find? name).map ChipType.canonical) := by
  unfold knownTypes
  rw [Table.find?_overlay, Table.find?_mapValues]

/-- Two sources describe one circuit: they have the same root, with the same constants, and what
they say of the types that are come across is the same when it is bare. -/
structure SameCircuit (s s' : Source) : Prop where
  type : s.chip.type = s'.chip.type
  constants : s.chip.constants = s'.chip.constants
  types : ∀ name, (knownTypes s).Reached s.chip.type name → Library.standard.find? name = none →
    (s.types.find? name).map ChipType.bare = (s'.types.find? name).map ChipType.bare

theorem SameCircuit.agreeFrom {s s' : Source} (h : SameCircuit s s') :
    (knownTypes s).bare.AgreeFrom (knownTypes s').bare s.chip.type := by
  intro name hname
  rw [TypeTable.find?_bare, TypeTable.find?_bare, find?_knownTypes, find?_knownTypes]
  cases hstandard : Library.standard.find? name with
  | some t => rfl
  | none =>
    have hsame := h.types name (TypeTable.reached_of_bare hname) hstandard
    rw [Option.none_or, Option.none_or]
    cases ht : s.types.find? name with
    | none =>
      -- A type that one source does not define is not defined in the other one either.
      rw [ht, Option.map_none, eq_comm, Option.map_eq_none_iff] at hsame
      rw [hsame]
    | some t =>
      rw [ht] at hsame
      obtain ⟨t', ht', hbare⟩ := Option.map_eq_some_iff.1 hsame.symm
      rw [ht']
      exact congrArg some (ChipType.bare_canonical_congr hbare.symm)

/-- Sources of one circuit are compiled to the same program or fail with the same error, whatever
their layout is.  Only warnings about chips without wires may be different. -/
theorem compile_circuit [Template.Engine] (c : Compiler) {s s' : Source} (h : SameCircuit s s') :
    (c.compile s).2 = (c.compile s').2 ∧
      (c.compile s).1.filter isLoud = (c.compile s').1.filter isLoud := by
  have hsame := compileWith_congr c h.type h.constants h.agreeFrom
  rw [compileWith_bare, compileWith_bare, ← compile_eq, ← compile_eq] at hsame
  obtain ⟨hwarnings, hresult⟩ := Prod.mk.inj hsame
  exact ⟨hresult, hwarnings⟩

/-- The same bench with everything that does not matter: the counter is labelled, moved and turned,
its wire has a path on another layer, and there is a chip that no wire touches, of a type that is
not known.  The types are of another height, one of them is not used, and one stands under a
standard name. -/
def furnishedSource : Source :=
  let counter : Chip := { counterChip with label := "the counter", pos := ⟨7, 3⟩, rotation := .r1 }
  let wire : Wire :=
    ⟨2, [⟨0, 1⟩, ⟨1, 1⟩], ⟨⟨"bench"⟩, false, "A"⟩, ⟨⟨"c"⟩, false, "A"⟩, true, false⟩
  let bench : ChipType := { benchType with
    size := ⟨1, 9⟩
    kind := "demo"
    description := "A bench for counters."
    content := .ofChips ⟨1, 9⟩ [counter, .ofPlace ⟨"x"⟩ ⟨"ghost"⟩ .one] [wire] }
  ⟨{ Chip.ofPlace ⟨"other"⟩ ⟨"bench"⟩ ⟨4, 4⟩ with label := "Bench" },
    .ofList [(⟨"counter"⟩, { counterType with size := ⟨1, 3⟩ }), (⟨"bench"⟩, bench),
      (⟨"spare"⟩, bench), (⟨"and"⟩, bench)]⟩

/-- Of the bench the compiler comes across itself and the counter. -/
theorem reached_benchSource {name : Name}
    (h : (knownTypes benchSource).Reached ⟨"bench"⟩ name) :
    name = ⟨"bench"⟩ ∨ name = ⟨"counter"⟩ := by
  induction h with
  | root => exact Or.inl rfl
  | @child t body chip _ hknown hwired ih =>
    right
    rcases ih with rfl | rfl
    · obtain rfl : benchType = body := Option.some.inj (find?_bench.symm.trans hknown)
      have htypes : ∀ d ∈ benchType.content.chips.values, d.type = ⟨"counter"⟩ := by decide
      exact htypes chip (Content.chip?_eq_some_iff.1 hwired.1).1
    -- The counter has no wires, so nothing is come across from there.
    · obtain rfl : counterType = body := Option.some.inj (find?_counter.symm.trans hknown)
      obtain ⟨-, w, hw, -⟩ := hwired
      exact absurd hw List.not_mem_nil

/-- Both benches are compiled to one program. -/
theorem compile_furnishedSource : SameCircuit benchSource furnishedSource ∧
    ∃ program, (Emit.silent.compile benchSource).2 = .ok program ∧
      (Emit.silent.compile furnishedSource).2 = .ok program := by
  have hsame : SameCircuit benchSource furnishedSource := by
    refine ⟨rfl, rfl, fun name hname _ => ?_⟩
    rcases reached_benchSource hname with rfl | rfl
    · decide +kernel
    · decide +kernel
  obtain ⟨program, hprogram, -⟩ := compile_benchSource
  obtain ⟨hresult, -⟩ := compile_circuit Emit.silent hsame
  exact ⟨hsame, program, hprogram, hresult.symm.trans hprogram⟩

end Compiler

end LogicBoard
