/-
  LogicBoard.Proofs.Compile.Layout
  ────────────────────────────────
  **THE COMPILER DOES NOT LOOK AT THE LAYOUT.**

  Compiling bare types gives what compiling the types gives, pass by pass:
  the analysis of dependencies, the plan of each type and its class.  Only
  the warnings about chips without wires are gone, because these chips are.

  Main statements:
    • `plan_bare` — the plan of a content,
    • `run_bare` — the class of a type,
    • `dependencies_bare` — the graph of the types,
    • `compileTypes_bare` — all types, with their warnings,
    • `compileWith_bare` — programs and errors.
-/
import LogicBoard.Proofs.Compile.Consistency
import LogicBoard.Proofs.Design.Bare

namespace LogicBoard

/-! ## §1. Plans. -/

namespace Content

variable (c : Content)

theorem live_bare : c.bare.live = c.live := by
  unfold live
  rw [wiredChips_bare, List.map_map]
  rfl

/-- A bare content has no chips that are left out. -/
theorem dead_bare : c.bare.dead = [] := by
  unfold dead
  rw [List.filter_eq_nil_iff]
  intro id hid
  obtain ⟨chip, hchip⟩ := Table.mem_keys_iff.1 hid
  -- What is left out is not live, but all chips of a bare content are.
  have hlive : id ∈ c.bare.live := by
    rw [live_eq_filter]
    refine List.mem_filter.2 ⟨hid, ?_⟩
    by_contra hwired
    rw [isWired_bare] at hwired
    have hnone : c.bare.chip? id = none := by rw [chip?_bare, if_neg hwired]
    exact absurd (hnone.symm.trans hchip) (by simp)
  simp [hlive]

theorem wiresInto_bare (id : Name) : c.bare.wiresInto id = (c.wiresInto id).map Wire.bare := by
  unfold wiresInto bare
  rw [List.filter_map]
  rfl

theorem seedScores_bare (owner : Name) (seed : Nat) :
    c.bare.seedScores owner seed = c.seedScores owner seed := by
  have hfed : ∀ id, c.bare.isFed owner id = c.isFed owner id := by
    intro id
    unfold isFed
    rw [wiresInto_bare, List.any_map]
    rfl
  unfold seedScores
  rw [live_bare]
  simp only [hfed]

theorem raiseScore_bare : c.bare.raiseScore = c.raiseScore := by
  funext scores id
  have hgain : c.bare.gain scores id = c.gain scores id := by
    unfold gain
    rw [wiresInto_bare, List.map_map]
    rfl
  unfold raiseScore
  rw [hgain]

theorem scoresAfter_bare (scores : Table Name Nat) (n : Nat) :
    c.bare.scoresAfter scores n = c.scoresAfter scores n := by
  induction n generalizing scores with
  | zero => rfl
  | succ n ih =>
    unfold scoresAfter
    rw [ih, live_bare, raiseScore_bare]

theorem chipGraph_bare : c.bare.chipGraph = c.chipGraph := by
  unfold chipGraph
  rw [live_bare]
  show (c.wires.map Wire.bare).foldl _ _ = _
  rw [List.foldl_map]
  rfl

/-- The plan of a bare content. -/
theorem plan_bare (owner : Name) (settings : CompileSettings) :
    c.bare.plan owner settings = { c.plan owner settings with dead := [] } := by
  unfold plan
  rw [seedScores_bare, scoresAfter_bare, chipGraph_bare, dead_bare]

end Content

/-! ## §2. Classes. -/

/-- What a look-up says of a type is the same but for the layout. -/
theorem TypeTable.get_bare (types : TypeTable) (name : Name) :
    (types.bare.lookup.get name).bare = (types.lookup.get name).bare := by
  show ((types.bare.find? name).getD .skeleton).bare = ((types.find? name).getD .skeleton).bare
  rw [find?_bare]
  cases types.find? name with
  | none => rfl
  | some t => exact t.bare_bare

theorem Chip.resolvedConstants_bare (c : Chip) (types : TypeTable) :
    c.resolvedConstants types.bare.lookup = c.resolvedConstants types.lookup := by
  have hslots : (types.bare.lookup.get c.type).constants = (types.lookup.get c.type).constants := by
    show (types.bare.lookup.get c.type).bare.constants = (types.lookup.get c.type).bare.constants
    rw [types.get_bare]
  unfold resolvedConstants
  rw [hslots]

namespace Emit

/-- The job with bare types. -/
def Job.bare (j : Job) : Job := ⟨j.owner, j.type.bare, j.types.bare⟩

variable (j : Job)

/-- A chip on which a wire ends is still there. -/
theorem hasEnds_bare {w : Wire} (hw : w ∈ j.type.content.wires) :
    hasEnds j.bare w.bare = hasEnds j w := by
  have hend : ∀ p : Pin, j.type.content.isWired p.chip = true → hasEnd j.bare p = hasEnd j p := by
    intro p hp
    have hcontains : j.type.content.bare.chips.contains p.chip
        = j.type.content.chips.contains p.chip := by
      show (j.type.content.bare.chip? p.chip).isSome = (j.type.content.chip? p.chip).isSome
      rw [Content.chip?_bare_of_isWired hp, Option.isSome_map]
    show (decide (p.chip = j.owner) || j.type.content.bare.chips.contains p.chip) = hasEnd j p
    rw [hcontains]
    rfl
  -- The wire itself is what makes both of its ends wired.
  unfold hasEnds
  rw [hend, hend]
  · rfl
  · exact Content.isWired_iff.2 ⟨w, hw, Or.inr rfl⟩
  · exact Content.isWired_iff.2 ⟨w, hw, Or.inl rfl⟩

/-- The statements of some of the wires. -/
theorem statements_bare {wires : List Wire} {p q : Wire → Bool} (h : ∀ w ∈ wires, q w.bare = p w) :
    ((wires.map Wire.bare).filter q).map Identifier.wireStatement
      = (wires.filter p).map Identifier.wireStatement := by
  have hfilter : wires.filter (q ∘ Wire.bare) = wires.filter p := List.filter_congr h
  rw [List.filter_map, List.map_map, hfilter]
  rfl

theorem wiresFrom_bare (id : Name) : wiresFrom j.bare id = wiresFrom j id := by
  unfold wiresFrom Content.wiresFrom
  rw [List.filter_filter, List.filter_filter]
  refine statements_bare fun w hw => ?_
  rw [hasEnds_bare j hw]
  rfl

theorem preamble_bare : preamble j.bare = preamble j := by
  have hinputs : inputWires j.bare = inputWires j := by
    refine statements_bare fun w hw => ?_
    rw [hasEnds_bare j hw]
    rfl
  unfold preamble
  rw [hinputs]
  rfl

theorem constantsOf_bare (c : Chip) : constantsOf j.bare c.bare = constantsOf j c := by
  have hresolved : c.bare.resolvedConstants j.bare.types.lookup
      = c.resolvedConstants j.types.lookup := c.resolvedConstants_bare j.types
  unfold constantsOf
  rw [hresolved]
  rfl

/-- A bare chip contributes what the chip does. -/
theorem piece_bare [Template.Engine] (c : Chip) : piece j.bare c.bare = piece j c := by
  have hconstants := constantsOf_bare j c
  have hwires : wiresFrom j.bare c.bare.id = wiresFrom j c.id := wiresFrom_bare j c.id
  have hbindings : bindingsOf j.bare c.bare = bindingsOf j c := by
    unfold bindingsOf
    rw [hconstants]
  have hfind : j.bare.types.find? c.bare.type = (j.types.find? c.type).map ChipType.bare :=
    TypeTable.find?_bare j.types c.type
  unfold piece
  rw [hfind]
  cases j.types.find? c.type with
  | none => rfl
  | some t =>
    have hcode : t.bare.inlineCode? = t.inlineCode? := rfl
    dsimp only [Option.map_some]
    rw [hcode]
    cases t.inlineCode? with
    | some code =>
      have hvariables : codeVariables j.bare c.bare t.bare = codeVariables j c t := by
        unfold codeVariables
        rw [hconstants]
        rfl
      show standard j.bare c.bare t.bare code = standard j c t code
      unfold standard
      rw [hvariables, hbindings, hwires]
      rfl
    | none =>
      show Except.ok (composite j.bare c.bare t.bare) = Except.ok (composite j c t)
      unfold composite
      rw [hconstants, hbindings, hwires]
      rfl

theorem assemble_bare (debug : Bool) (chips : List Chip) (pieces : List Piece) :
    assemble j.bare debug (chips.map Chip.bare) pieces = assemble j debug chips pieces := by
  have hpins : chipPins j.bare (chips.map Chip.bare) = chipPins j chips := by
    unfold chipPins
    rw [List.flatMap_map]
    refine List.flatMap_congr fun c _ => ?_
    show portVariables c.id (j.types.bare.lookup.get c.type).bare
      = portVariables c.id (j.types.lookup.get c.type).bare
    rw [j.types.get_bare]
  unfold assemble
  rw [hpins, preamble_bare]
  rfl

/-- The class of a bare type, with a plan of wired chips. -/
theorem run_bare [Template.Engine] {plan : Plan}
    (hplan : ∀ id ∈ plan.order, j.type.content.isWired id = true)
    (debug : Bool) : run j.bare plan debug = run j plan debug := by
  have hchips : plan.order.mapM (plannedChip j.bare)
      = (plan.order.mapM (plannedChip j)).map (List.map Chip.bare) := by
    refine Fallible.mapM_eq_map_mapM fun id hid => ?_
    have hchip : j.bare.type.content.chip? id = (j.type.content.chip? id).map Chip.bare :=
      Content.chip?_bare_of_isWired (hplan id hid)
    unfold plannedChip
    rw [hchip]
    cases j.type.content.chip? id <;> rfl
  unfold run
  rw [hchips]
  cases plan.order.mapM (plannedChip j) with
  | error e => rfl
  | ok chips =>
    show ((chips.map Chip.bare).mapM (piece j.bare) >>= _) = (chips.mapM (piece j) >>= _)
    have hpieces : (chips.map Chip.bare).mapM (piece j.bare) = chips.mapM (piece j) := by
      rw [List.mapM_map]
      exact Fallible.mapM_congr fun c _ => piece_bare j c
    rw [hpieces]
    cases chips.mapM (piece j) with
    | error e => rfl
    | ok pieces => exact congrArg Except.ok (assemble_bare j debug chips pieces)

end Emit

/-! ## §3. The analysis of dependencies. -/

namespace TypeTable

variable (types : TypeTable)

theorem meet_bare (owner : Name) (d : Discovery) (c : Chip) :
    types.bare.meet owner d c.bare = types.meet owner d c := by
  have hfind : types.bare.find? c.bare.type = (types.find? c.type).map ChipType.bare :=
    find?_bare types c.type
  unfold meet
  rw [hfind]
  cases types.find? c.type <;> rfl

theorem discover_bare (fuel : Nat) (d : Discovery) :
    types.bare.discover fuel d = types.discover fuel d := by
  induction fuel generalizing d with
  | zero => rcases d with ⟨g, _ | ⟨owner, work⟩⟩ <;> rfl
  | succ fuel ih =>
    obtain ⟨g, work⟩ := d
    cases work with
    | nil => rfl
    | cons owner work =>
      unfold discover
      rw [find?_bare]
      cases types.find? owner with
      | none => exact ih (g, work)
      | some t =>
        show (t.content.bare.wiredChips.foldlM (types.bare.meet owner) (g, work) >>= _) = _
        rw [Content.wiredChips_bare, List.foldlM_map]
        simp only [meet_bare]
        exact congrArg _ (funext ih)

/-- The graph of bare types. -/
theorem dependencies_bare (root : Name) : types.bare.dependencies root = types.dependencies root := by
  unfold dependencies
  rw [discover_bare]
  -- The steps are bounded by the number of types, which has not changed.
  congr 2
  exact List.length_map _

end TypeTable

/-! ## §4. Types and programs. -/

namespace Compiler

theorem typeOrder_bare (types : TypeTable) (root : Name) :
    typeOrder types.bare root = typeOrder types root := by
  have hroot : checkRoot types.bare root = checkRoot types root := by
    unfold checkRoot
    rw [TypeTable.find?_bare]
    cases types.find? root <;> rfl
  unfold typeOrder
  rw [hroot, TypeTable.dependencies_bare]

/-- Is it something else than a warning about a chip without wires? -/
def isLoud (d : Diagnostic) : Bool := d.code ≠ ⟨.warning, 201⟩

/-- Only the warnings about chips without wires depend on these. -/
theorem warnings_bare (name : Name) (plan : Plan) :
    warnings name { plan with dead := [] } = (warnings name plan).filter isLoud := by
  have hdead : (plan.dead.map (Diagnostic.ofDeadChip name)).filter isLoud = [] := by
    rw [List.filter_eq_nil_iff]
    intro d hd
    obtain ⟨id, -, rfl⟩ := List.mem_map.1 hd
    simp [isLoud, Diagnostic.ofDeadChip, Diagnostic.ofWarning, Diagnostic.withHelp]
  have hloops : (plan.loops.map (Diagnostic.ofLoop name)).filter isLoud
      = plan.loops.map (Diagnostic.ofLoop name) := by
    rw [List.filter_eq_self]
    intro d hd
    obtain ⟨group, -, rfl⟩ := List.mem_map.1 hd
    simp [isLoud, Diagnostic.ofLoop, Diagnostic.ofWarning, Diagnostic.withNote]
  unfold warnings
  rw [List.filter_append, hdead, hloops]
  rfl

variable (c : Compiler)

theorem compileType_bare [Template.Engine] (owner : Name) (type : ChipType) (types : TypeTable) :
    c.compileType ⟨owner, type.bare, types.bare⟩ (type.bare.content.plan owner c.settings)
      = c.compileType ⟨owner, type, types⟩ (type.content.plan owner c.settings) := by
  have hwired : ∀ id ∈ (type.content.plan owner c.settings).order,
      type.content.isWired id = true := by
    intro id hid
    obtain ⟨chip, hchip, rfl⟩ := Content.mem_plan_order.1 hid
    exact (List.mem_filter.1 (Content.mem_wiredChips.2 hchip)).2
  have hrun := Emit.run_bare ⟨owner, type, types⟩ hwired c.settings.debug
  have hplan : type.bare.content.plan owner c.settings
      = { type.content.plan owner c.settings with dead := [] } :=
    type.content.plan_bare owner c.settings
  -- The plan differs in the chips that are left out, and the class does not mention them.
  rw [hplan]
  unfold compileType
  show (Emit.run (Emit.Job.bare ⟨owner, type, types⟩)
    (type.content.plan owner c.settings) c.settings.debug >>= _) = _
  rw [hrun]

/-- Bare types are compiled as the types are, and with the same warnings otherwise. -/
theorem compileTypes_bare [Template.Engine] (types : TypeTable) (order : List Name) :
    c.compileTypes types.bare order
      = ((c.compileTypes types order).1.filter isLoud, (c.compileTypes types order).2) := by
  induction order with
  | nil => rfl
  | cons name rest ih =>
    unfold compileTypes
    rw [TypeTable.find?_bare]
    cases types.find? name with
    | none => rfl
    | some type =>
      dsimp only [Option.map_some]
      have hwarnings : warnings name (type.bare.content.plan name c.settings)
          = (warnings name (type.content.plan name c.settings)).filter isLoud := by
        rw [← warnings_bare]
        exact congrArg (warnings name) (type.content.plan_bare name c.settings)
      rw [compileType_bare, hwarnings]
      cases c.compileType ⟨name, type, types⟩ (type.content.plan name c.settings) with
      | error e => rfl
      | ok t =>
        dsimp only
        rw [ih, List.filter_append]

/-- Compiles the root chip of a source with given types. -/
def compileWith [Template.Engine] (s : Source) (types : TypeTable) :
    List Diagnostic × Except CompileError Program :=
  match typeOrder types s.chip.type with
  | .error e => ([], .error e)
  | .ok order =>
    let (warnings, result) := c.compileTypes types order
    (warnings, result.bind (c.assemble s types))

theorem compile_eq [Template.Engine] (s : Source) :
    c.compile s = c.compileWith s (knownTypes s) := rfl

/-- With bare types, the same program or the same error comes out. -/
theorem compileWith_bare [Template.Engine] (s : Source) (types : TypeTable) :
    c.compileWith s types.bare
      = ((c.compileWith s types).1.filter isLoud, (c.compileWith s types).2) := by
  have hassemble : c.assemble s types.bare = c.assemble s types := by
    unfold assemble
    rw [Chip.resolvedConstants_bare]
  unfold compileWith
  rw [typeOrder_bare]
  cases typeOrder types s.chip.type with
  | error e => rfl
  | ok order =>
    dsimp only
    rw [compileTypes_bare, hassemble]

end Compiler

end LogicBoard
