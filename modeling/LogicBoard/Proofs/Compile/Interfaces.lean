/-
  LogicBoard.Proofs.Compile.Interfaces
  ────────────────────────────────
  **CALLERS AND CALLEES AGREE.**

  The class of a composite type is made from its definition, and the classes
  that hold objects of it are made from what a look-up says about the type.
  Constants and ports are passed by position, so both sides have to list
  them in one order.

  An `Interface` is what both sides see of a type:
    • the class offers it — parameters and results are its names, after the
      name of the type (`offers_of_run`),
    • every chip of the type uses it — the object is made with, called with
      and read by the same names, after the name of the chip
      (`uses_of_run`).

  Main statement: `interfaces_agree` — throughout a program, what a class
  offers is what every chip of its type uses, and what the instance of the
  root type is made with.
-/
import LogicBoard.Proofs.Compile.Names

namespace LogicBoard

/-! ## §1. Interfaces. -/

/-- What a class shows of itself, by names that are without the name of a chip. -/
structure Interface where
  /-- The constants that an object is made with. -/
  constants : List String
  inputs : List String
  outputs : List String

/-- The interface is that of a type: its constants in rising order, and its ports by position. -/
structure Interface.IsOf (i : Interface) (t : ChipType) : Prop where
  rising : i.constants.Pairwise (· < ·)
  mem_constants : ∀ k, k ∈ i.constants ↔ k ∈ t.constants
  inputs : i.inputs = t.inputs.filter (!·.isEmpty)
  outputs : i.outputs = t.outputs.filter (!·.isEmpty)

/-- The interface of a type. -/
def ChipType.interface (t : ChipType) : Interface :=
  ⟨Emit.sortedTexts t.constants, t.namedPorts false, t.namedPorts true⟩

theorem ChipType.isOf_interface (t : ChipType) : t.interface.IsOf t where
  rising := Table.keys_rising _
  mem_constants k := by
    show k ∈ Emit.sortedTexts t.constants ↔ _
    unfold Emit.sortedTexts
    rw [Table.mem_keys_ofList, List.map_map]
    simp
  inputs := rfl
  outputs := rfl

/-- The value of a constant slot of a chip, the empty text if the slot is not filled in. -/
def Chip.constant (c : Chip) (key : String) : Constant :=
  (c.constants.find? key).getD (.text "")

/-- A chip has the values of the constants of its type in the order of the interface. -/
theorem Chip.entries_resolvedConstants (c : Chip) (types : TypeLookup) :
    (c.resolvedConstants types).entries
      = (types.get c.type).interface.constants.map fun key => (key, c.constant key) :=
  Table.entries_ofList_map _ _

namespace Emit

open Identifier (spelled spelling)

variable {j : Job} {settings : CompileSettings} {debug : Bool} {e : EmittedType}

/-! ## §2. What a class offers. -/

/-- The parameters and results of a class are those of the interface: `C_type_constant`,
`I_type_port` and `O_type_port`. -/
structure Offers (e : EmittedType) (type : Name) (i : Interface) : Prop where
  constants : e.context.constants = i.constants.map (spelled "C" type.text)
  inputs : e.context.inputs = i.inputs.map (spelled "I" type.text)
  outputs : e.context.outputs = i.outputs.map (spelled "O" type.text)

theorem offers_of_run [Template.Engine] {plan : Plan} (h : run j plan debug = .ok e) :
    Offers e j.owner j.type.interface := by
  obtain ⟨chips, pieces, -, -, rfl⟩ := run_ok_iff.1 h
  constructor
  · rw [← Identifier.constant_eq_spelled]
    rfl
  · rw [← Identifier.input_eq_spelled]
    rfl
  · rw [← Identifier.output_eq_spelled]
    rfl

theorem className_of_run [Template.Engine] {plan : Plan} (h : run j plan debug = .ok e) :
    e.context.className = Identifier.className j.owner := by
  obtain ⟨chips, pieces, -, -, rfl⟩ := run_ok_iff.1 h
  rfl

/-! ## §3. What a chip uses. -/

/-- The statements of a call: the variables `args` go in, and what comes back goes to the variables
`outs` one by one. -/
def callStatements (member : String) (args outs : List String) : List String :=
  let call := "this." ++ member ++ ".run(" ++ ", ".intercalate args ++ ");"
  match outs with
  | [] => [call]
  | outs =>
    ("const [" ++ ", ".intercalate (outs.map ("_" ++ ·)) ++ "] = " ++ call)
      :: outs.map fun v => v ++ " = _" ++ v ++ ";"

/-- The object that a class holds for a chip of another class. -/
def objectOf (c : Chip) (callee : String) (i : Interface) : ChipObject where
  id := c.id.text
  member := "CHIP_" ++ spelling c.id.text
  className := callee
  type := c.type.text
  constants := i.constants.map (spelled "C" c.id.text)

/-- What a class has for a chip of the class `callee` fits the interface. -/
structure UsesClass (e : EmittedType) (c : Chip) (callee : String) (i : Interface) : Prop where
  /-- The object of the chip, which no other one has the name of. -/
  object : ∀ o, o ∈ e.context.objects ∧ o.id = c.id.text ↔ o = objectOf c callee i
  /-- The constants the object is made with have the values that are stored on the chip. -/
  bindings : (i.constants.map fun key =>
    ⟨spelled "C" c.id.text key, (c.constant key).literal⟩) <:+: e.context.bindings
  /-- The block of the chip calls the object, and then come the wires. -/
  block : ∃ wires, ∀ b,
    b ∈ e.context.blocks ∧ b.description = "Chip Code" ∧ b.id = c.id.text ↔
      b = ⟨c.type.text, c.id.text, "Chip Code",
        callStatements ("CHIP_" ++ spelling c.id.text) (i.inputs.map (spelled "I" c.id.text))
          (i.outputs.map (spelled "O" c.id.text)) ++ wires, false⟩

theorem callLines_eq (c : Chip) (t : ChipType) :
    callLines c t = callStatements ("CHIP_" ++ spelling c.id.text)
      (t.interface.inputs.map (spelled "I" c.id.text))
      (t.interface.outputs.map (spelled "O" c.id.text)) := by
  show callLines c t = callStatements _ ((t.namedPorts false).map _) ((t.namedPorts true).map _)
  rw [← Identifier.object_eq_spelling, ← Identifier.input_eq_spelled,
    ← Identifier.output_eq_spelled]
  unfold callLines
  cases t.namedPorts true with
  | nil => rfl
  | cons out outs => rfl

theorem get_of_find? {types : TypeTable} {name : Name} {t : ChipType}
    (h : types.find? name = some t) : types.lookup.get name = t := by
  show (types.find? name).getD .skeleton = t
  rw [h]
  rfl

theorem constantsOf_eq {c : Chip} {t : ChipType} (h : j.types.find? c.type = some t) :
    constantsOf j c = t.interface.constants.map fun key =>
      (spelled "C" c.id.text key, key, c.constant key) := by
  unfold constantsOf
  rw [Chip.entries_resolvedConstants, get_of_find? h, List.map_map,
    Identifier.constant_eq_spelled]
  rfl

/-- The one piece that a composite chip contributes fits the interface of its type. -/
theorem composite_eq {c : Chip} {t : ChipType} (h : j.types.find? c.type = some t) :
    composite j c t = {
      bindings := t.interface.constants.map fun key =>
        ⟨spelled "C" c.id.text key, (c.constant key).literal⟩
      object := some (objectOf c (Identifier.className c.type) t.interface)
      needed := some c.type
      block := ⟨c.type.text, c.id.text, "Chip Code",
        callStatements ("CHIP_" ++ spelling c.id.text)
          (t.interface.inputs.map (spelled "I" c.id.text))
          (t.interface.outputs.map (spelled "O" c.id.text)) ++ wiresFrom j c.id, false⟩ } := by
  unfold composite bindingsOf objectOf
  rw [constantsOf_eq h, callLines_eq, List.map_map, List.map_map, Identifier.object_eq_spelling]
  rfl

/-- The block and the object of a piece have the name of the chip. -/
theorem id_of_piece [Template.Engine] {c : Chip} {p : Piece} (h : piece j c = .ok p) :
    p.block.id = c.id.text ∧ p.block.description = "Chip Code" ∧
      ∀ o, p.object = some o → o.id = c.id.text := by
  obtain ⟨t, -, ⟨code, text, -, -, rfl⟩ | ⟨-, rfl⟩⟩ := piece_cases h
  · refine ⟨rfl, rfl, ?_⟩
    intro o ho
    exact absurd ho (by simp)
  · refine ⟨rfl, rfl, ?_⟩
    intro o ho
    rw [← Option.some.inj ho]

theorem description_of_preamble {b : CodeBlock} (h : b ∈ preamble j) :
    b.description = "Setting Input Vars" := by
  unfold preamble at h
  dsimp only at h
  split at h
  · exact absurd h List.not_mem_nil
  · rw [List.mem_singleton.1 h]

/-- Of the pieces of a class only one has the name of a wired chip, its own. -/
theorem piece_of_id [Template.Engine] {chips : List Chip} {pieces : List Piece}
    (hchips : List.Forall₂ (fun id c => plannedChip j id = .ok c)
      (j.type.content.plan j.owner settings).order chips)
    (hpieces : List.Forall₂ (fun c p => piece j c = .ok p) chips pieces) {c : Chip} {q : Piece}
    (hc : j.type.content.Wired c) (hq : piece j c = .ok q) {p : Piece} (hp : p ∈ pieces)
    (hid : p.block.id = c.id.text) : p = q := by
  obtain ⟨d, hd, hpd⟩ := (mem_pieces hchips hpieces).1 hp
  have hname : d.id = c.id := congrArg Name.mk ((id_of_piece hpd).1.symm.trans hid)
  obtain rfl : d = c := Option.some.inj (hd.1.symm.trans (hname ▸ hc.1))
  exact Except.ok.inj (hpd.symm.trans hq)

/-- A chip of a composite type uses the interface of its type. -/
theorem uses_of_run [Template.Engine]
    (h : run j (j.type.content.plan j.owner settings) debug = .ok e) {c : Chip}
    (hc : j.type.content.Wired c) {t : ChipType} (ht : j.types.find? c.type = some t)
    (hcode : t.inlineCode? = none) :
    UsesClass e c (Identifier.className c.type) t.interface := by
  obtain ⟨chips, pieces, hchips, hpieces, rfl⟩ := run_ok_iff.1 h
  -- The piece of the chip is known, and it is the only one that has the name of the chip.
  have hpiece := piece_composite ht hcode
  have hmem : composite j c t ∈ pieces := (mem_pieces hchips hpieces).2 ⟨c, hc, hpiece⟩
  have honly : ∀ p ∈ pieces, p.block.id = c.id.text → p = composite j c t :=
    fun p hp hid => piece_of_id hchips hpieces hc hpiece hp hid
  rw [composite_eq ht] at hmem honly
  constructor
  case object =>
    intro o
    show o ∈ pieces.filterMap (·.object) ∧ _ ↔ _
    rw [List.mem_filterMap]
    constructor
    · intro ho
      obtain ⟨⟨p, hp, hpo⟩, hid⟩ := ho
      obtain ⟨d, -, hpd⟩ := (mem_pieces hchips hpieces).1 hp
      obtain ⟨hblock, -, hobject⟩ := id_of_piece hpd
      rw [honly p hp (hblock.trans ((hobject o hpo).symm.trans hid))] at hpo
      exact (Option.some.inj hpo).symm
    · intro ho
      rw [ho]
      exact ⟨⟨_, hmem, rfl⟩, rfl⟩
  case bindings =>
    obtain ⟨before, after, hsplit⟩ := List.append_of_mem hmem
    show _ <:+: pieces.flatMap (·.bindings)
    rw [hsplit, List.flatMap_append, List.flatMap_cons, ← List.append_assoc]
    exact ⟨_, _, rfl⟩
  case block =>
    refine ⟨wiresFrom j c.id, ?_⟩
    intro b
    show b ∈ preamble j ++ pieces.map (·.block) ∧ _ ↔ _
    rw [List.mem_append, List.mem_map]
    constructor
    · intro hb
      obtain ⟨hb | ⟨p, hp, rfl⟩, hdescription, hid⟩ := hb
      · -- The block of the inputs is described in another way.
        rw [description_of_preamble hb] at hdescription
        exact absurd hdescription (by decide)
      · rw [honly p hp hid]
    · intro hb
      rw [hb]
      exact ⟨Or.inr ⟨_, hmem, rfl⟩, rfl, rfl⟩

end Emit

namespace Compiler

variable {c : Compiler} {s : Source} {program : Program}

/-! ## §4. Programs. -/

section Engines

variable [Template.Engine]

/-- The class of a type of a program: it is made of the type's definition, and what was written
from it is the text that the program has for the type. -/
structure IsClass (c : Compiler) (s : Source) (program : Program) (name : Name) (t : ChipType)
    (e : EmittedType) : Prop where
  known : (knownTypes s).find? name = some t
  made : Emit.run ⟨name, t, knownTypes s⟩ (t.content.plan name c.settings) c.settings.debug = .ok e
  written : ∃ compiled, program.types.find? name = some compiled ∧
    c.templates.writeClass e.context = .ok compiled.code

/-- Every type of a program has a class. -/
theorem exists_isClass (h : (c.compile s).2 = .ok program) {name : Name}
    (hname : name ∈ program.order) : ∃ t e, c.IsClass s program name t e := by
  obtain ⟨compiled, hcompiled⟩ : ∃ compiled, program.types.find? name = some compiled := by
    obtain ⟨order, types, -, htypes, hassemble⟩ := compile_ok_iff.1 h
    obtain ⟨code, -, rfl⟩ := assemble_ok_iff.1 hassemble
    exact Table.mem_keys_iff.1 (Table.mem_keys_ofList.2 hname)
  obtain ⟨-, -, t, ht, hcompile⟩ := (types_of_compile h).1 hcompiled
  obtain ⟨e, code, hrun, hwrite, hentry⟩ := compileType_ok_iff.1 hcompile
  obtain rfl : compiled = _ := hentry
  exact ⟨t, e, ht, hrun, _, hcompiled, hwrite⟩

/-- The types of the chips of a class have classes themselves. -/
theorem mem_order_of_wired (h : (c.compile s).2 = .ok program) {name : Name} {t u : ChipType}
    {e : EmittedType} (he : c.IsClass s program name t e) {chip : Chip}
    (hchip : t.content.Wired chip) (hu : (knownTypes s).find? chip.type = some u)
    (hcode : u.inlineCode? = none) : chip.type ∈ program.order := by
  have horder := order_of_compile h
  obtain ⟨compiled, hfind, -⟩ := he.written
  have hneeds := (horder.mem_iff name).1 ((types_of_compile h).1 hfind).1
  refine (horder.mem_iff _).2 (hneeds.tail ?_)
  exact ⟨t, he.known, chip, hchip, rfl, u, hu, hcode⟩

/-- The root type has a class. -/
theorem root_mem_order (h : (c.compile s).2 = .ok program) : s.chip.type ∈ program.order :=
  List.mem_of_getLast? (order_of_compile h).root_last

end Engines

/-- A type with two constants, which are not listed in rising order. -/
def counterType : ChipType := { Emit.follower with constants := ["WIDTH", "LABEL"] }

theorem eq_of_isOf_counterType {i : Interface} (h : i.IsOf counterType) :
    i = ⟨["LABEL", "WIDTH"], ["A"], ["R"]⟩ := by
  -- The constants of the type, each of them once, can stand in one rising order only.
  have hnodup : i.constants.Nodup := h.rising.imp fun hlt heq => absurd (heq ▸ hlt) Std.lt_irrefl
  have hperm : i.constants.Perm ["LABEL", "WIDTH"] :=
    (List.perm_ext_iff_of_nodup hnodup (by decide)).2 fun k => by
      rw [h.mem_constants]
      show k ∈ ["WIDTH", "LABEL"] ↔ _
      simp [or_comm]
  have hconstants : i.constants = ["LABEL", "WIDTH"] := by
    refine hperm.eq_of_pairwise ?_ h.rising (by decide)
    intro k l _ _ hkl hlk
    exact absurd (Std.lt_trans hkl hlk) Std.lt_irrefl
  rw [← hconstants]
  exact congrArg₂ (Interface.mk i.constants) h.inputs h.outputs

/-- A counter of width 8 without a label. -/
def counterChip : Chip :=
  { Chip.ofPlace ⟨"c"⟩ ⟨"counter"⟩ .zero with
    constants := .ofList [("WIDTH", .number (.int 8))] }

/-- A counter that is driven by an input. -/
def benchType : ChipType :=
  { Emit.follower with
    content := .ofChips .one [counterChip]
      [⟨0, [], ⟨⟨"bench"⟩, false, "A"⟩, ⟨⟨"c"⟩, false, "A"⟩, false, true⟩] }

def benchSource : Source :=
  ⟨.ofPlace ⟨"board"⟩ ⟨"bench"⟩ .zero,
    .ofList [(⟨"counter"⟩, counterType), (⟨"bench"⟩, benchType)]⟩

/-- Both types are known as they are. -/
theorem find?_counter : (knownTypes benchSource).find? ⟨"counter"⟩ = some counterType := by cbv

theorem find?_bench : (knownTypes benchSource).find? ⟨"bench"⟩ = some benchType := by cbv

theorem compile_benchSource : ∃ program, (Emit.silent.compile benchSource).2 = .ok program ∧
    program.order = [⟨"counter"⟩, ⟨"bench"⟩] := by
  have horder : typeOrder (knownTypes benchSource) ⟨"bench"⟩
      = .ok [⟨"counter"⟩, ⟨"bench"⟩] := by cbv
  refine Emit.compile_silent horder ?_
  intro name hname
  simp only [List.mem_cons, List.not_mem_nil, or_false] at hname
  rcases hname with rfl | rfl
  · refine ⟨counterType, find?_counter, ?_⟩
    intro c hc
    obtain ⟨-, w, hw, -⟩ := hc
    exact absurd hw List.not_mem_nil
  · refine ⟨benchType, find?_bench, ?_⟩
    intro c hc
    have htypes : ∀ d ∈ benchType.content.chips.values, d.type = ⟨"counter"⟩ := by decide
    exact ⟨counterType, htypes c (Content.chip?_eq_some_iff.1 hc.1).1 ▸ find?_counter, rfl⟩

end Compiler

end LogicBoard
