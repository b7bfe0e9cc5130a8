/-
  LogicBoard.Proofs.Compile.Comments
  ────────────────────────────────
  **COMMENTS IN PROGRAMS.**

  The setting for comments changes nothing but the text of a program: with
  the built-in templates a source compiles with and without comments, and the
  programs are made of the same classes.  Their texts differ in the lines of
  the comments, and these are comments exactly as long as no name puts a line
  feed into one of them.

  Main statements:
    • `compile_builtin_iff` — the classes that a program is made of,
    • `mem_labels_iff` — what is said in the comments,
    • `debug_comments` — when all lines that are added are comments,
    • `not_addsComments` — a chip with a line feed in its name.
-/
import LogicBoard.Proofs.Compile.CommentLines
import LogicBoard.Proofs.Compile.Interfaces

namespace LogicBoard

open Text (AddsComments StaysComment)

/-! ## §1. The classes of a program. -/

namespace Compiler

/-- A compiler with the built-in templates, with or without comments. -/
def builtin (settings : CompileSettings) (debug : Bool) : Compiler :=
  { settings := { settings with debug } }

/-- A type whose class was made. -/
structure Made where
  name : Name
  emitted : EmittedType
  order : List Name

/-- The class as it is written. -/
def Made.compiled (m : Made) (debug : Bool) : Name × CompiledType :=
  (m.name, ⟨(m.emitted.context.withDebug debug).text, m.emitted.needed, m.order⟩)

/-- The class of the type is made, and it does not matter whether there are to be comments. -/
def IsMade (settings : CompileSettings) (types : TypeTable) (name : Name) (m : Made) : Prop :=
  m.name = name ∧ ∃ type, types.find? name = some type ∧
    Emit.run ⟨name, type, types⟩ (type.content.plan name settings) false = .ok m.emitted ∧
    m.order = (type.content.plan name settings).order

variable {settings : CompileSettings} {types : TypeTable} {debug : Bool} {s : Source}

theorem run_withDebug {j : Emit.Job} {plan : Plan} {e : EmittedType} :
    Emit.run j plan debug = .ok e ↔ ∃ made, Emit.run j plan false = .ok made ∧
      e = { made with context := made.context.withDebug debug } := by
  simp only [Emit.run_ok_iff]
  constructor
  · rintro ⟨chips, pieces, hchips, hpieces, rfl⟩
    exact ⟨_, ⟨chips, pieces, hchips, hpieces, rfl⟩, rfl⟩
  · rintro ⟨made, ⟨chips, pieces, hchips, hpieces, rfl⟩, rfl⟩
    exact ⟨chips, pieces, hchips, hpieces, rfl⟩

theorem isCompiled_builtin_iff {name : Name} {p : Name × CompiledType} :
    (builtin settings debug).IsCompiled types name p ↔
      ∃ m, IsMade settings types name m ∧ p = m.compiled debug := by
  constructor
  · rintro ⟨hname, type, htype, hcompile⟩
    obtain ⟨e, code, hrun, hcode, hp⟩ := compileType_ok_iff.1 hcompile
    obtain ⟨made, hmade, rfl⟩ := run_withDebug.1 hrun
    obtain rfl := Except.ok.inj ((Templates.writeClass_builtin _).symm.trans hcode)
    exact ⟨⟨name, made, _⟩, ⟨rfl, type, htype, hmade, rfl⟩, Prod.ext hname hp⟩
  · rintro ⟨m, ⟨hname, type, htype, hmade, horder⟩, rfl⟩
    refine ⟨hname, type, htype, compileType_ok_iff.2 ⟨_, _, run_withDebug.2 ⟨m.emitted, hmade, rfl⟩,
      Templates.writeClass_builtin _, ?_⟩⟩
    show (⟨_, _, m.order⟩ : CompiledType) = _
    rw [horder]
    rfl

/-- Whatever the templates, the class of a compiled type was made. -/
theorem exists_isMade {c : Compiler} {name : Name} {p : Name × CompiledType}
    (h : c.IsCompiled types name p) : ∃ m, IsMade c.settings types name m ∧ p.1 = m.name := by
  obtain ⟨hname, type, htype, hcompile⟩ := h
  obtain ⟨e, code, hrun, -, -⟩ := compileType_ok_iff.1 hcompile
  obtain ⟨made, hmade, -⟩ := run_withDebug.1 hrun
  exact ⟨⟨name, made, _⟩, ⟨rfl, type, htype, hmade, rfl⟩, hname⟩

/-- If each item shows what it was made of, then so does the list of them. -/
theorem exists_of_forall₂ {α β γ δ : Type} {R : α → β → Prop} {f : β → δ} {g : γ → δ} {l : List α}
    {m : List γ} (h : List.Forall₂ (fun a c => ∃ b, R a b ∧ g c = f b) l m) :
    ∃ bs, List.Forall₂ R l bs ∧ m.map g = bs.map f := by
  induction h with
  | nil => exact ⟨[], .nil, rfl⟩
  | cons ha _ ih =>
    obtain ⟨b, hb, hc⟩ := ha
    obtain ⟨bs, hbs, hm⟩ := ih
    exact ⟨b :: bs, .cons hb hbs, by rw [List.map_cons, List.map_cons, hc, hm]⟩

/-- The program around its classes. -/
def programContext (s : Source) : ProgramContext where
  type := s.chip.type.text
  className := Identifier.className s.chip.type
  constants := (s.chip.resolvedConstants (knownTypes s).lookup).values.map (·.literal)
  blocks := []
  debug := false

/-- The program that is put together from classes. -/
def programOf (s : Source) (made : List Made) (debug : Bool) : Program where
  code := ((programContext s).withClasses (made.map (·.emitted.context)) debug).text
  root := s.chip.type
  order := made.map (·.name)
  needed := sortedNames (s.chip.type :: made.flatMap (·.emitted.needed))
  types := .ofList (made.map (·.compiled debug))

/-- Putting classes together that are made. -/
theorem assemble_builtin_iff {made : List Made} {program : Program} :
    (builtin settings debug).assemble s (knownTypes s) (made.map (·.compiled debug)) = .ok program ↔
      program = programOf s made debug := by
  have hcode : (made.map (·.compiled debug)).map (·.2.code)
      = (made.map (·.emitted.context)).map fun k => (k.withDebug debug).text := by
    rw [List.map_map, List.map_map]
    rfl
  have horder : (made.map (·.compiled debug)).map (·.1) = made.map (·.name) := by
    rw [List.map_map]
    rfl
  have hneeded : (made.map (·.compiled debug)).flatMap (·.2.needed)
      = made.flatMap (·.emitted.needed) := by
    rw [List.flatMap_map]
    rfl
  have hwrite : ∀ c code, (builtin settings debug).templates.writeProgram c = .ok code ↔
      code = c.text := by
    intro c code
    show ({} : Templates).writeProgram c = .ok code ↔ code = c.text
    rw [Templates.writeProgram_builtin, Except.ok.injEq, eq_comm]
  have hdebug : (builtin settings debug).settings.debug = debug := rfl
  rw [assemble_ok_iff, hcode, horder, hneeded, hdebug]
  simp only [hwrite, exists_eq_left]
  refine Eq.congr_right ?_
  unfold programOf programContext ProgramContext.withClasses
  with_reducible rfl

/-- Programs with and without comments are made of the same classes. -/
theorem compile_builtin_iff {program : Program} :
    ((builtin settings debug).compile s).2 = .ok program ↔ ∃ order made,
      typeOrder (knownTypes s) s.chip.type = .ok order ∧
      List.Forall₂ (IsMade settings (knownTypes s)) order made ∧
      program = programOf s made debug := by
  rw [compile_ok_iff]
  refine exists_congr fun order => ?_
  constructor
  · rintro ⟨compiled, horder, hcompiled, hassemble⟩
    obtain ⟨made, hmade, hsame⟩ := exists_of_forall₂ (g := id)
      (hcompiled.imp fun _ _ => isCompiled_builtin_iff.1)
    obtain rfl : compiled = made.map (·.compiled debug) := (List.map_id compiled).symm.trans hsame
    exact ⟨made, horder, hmade, assemble_builtin_iff.1 hassemble⟩
  · rintro ⟨made, horder, hmade, hprogram⟩
    have hcompiled : List.Forall₂ ((builtin settings debug).IsCompiled (knownTypes s)) order
        (made.map (·.compiled debug)) :=
      List.forall₂_map_right_iff.2 (hmade.imp fun _ m hm => isCompiled_builtin_iff.2 ⟨m, hm, rfl⟩)
    exact ⟨_, horder, hcompiled, assemble_builtin_iff.2 hprogram⟩

/-- A source that can be compiled can be compiled with the built-in templates, with comments or
without them. -/
theorem exists_builtin {c : Compiler} {program : Program} (h : (c.compile s).2 = .ok program)
    (debug : Bool) : ∃ p, ((builtin c.settings debug).compile s).2 = .ok p ∧
      p.order = program.order := by
  obtain ⟨order, compiled, horder, hcompiled, hassemble⟩ := compile_ok_iff.1 h
  obtain ⟨made, hmade, hnames⟩ := exists_of_forall₂ (hcompiled.imp fun _ _ => exists_isMade)
  obtain ⟨code, -, rfl⟩ := assemble_ok_iff.1 hassemble
  exact ⟨_, compile_builtin_iff.2 ⟨order, made, horder, hmade, rfl⟩, hnames.symm⟩

end Compiler

/-! ## §2. What is said in comments. -/

/-- What is said in the comments of a class: that inputs are taken, if there are wires for that, and
whose statements are those of a chip. -/
inductive Emit.Says (j : Job) : String → Prop where
  | inputs (wires : inputWires j ≠ []) :
      Says j ("Setting Input Vars" ++ ": " ++ j.owner.text ++ " (" ++ j.owner.text ++ ")")
  | chip {c : Chip} (wired : j.type.content.Wired c) :
      Says j ("Chip Code" ++ ": " ++ c.id.text ++ " (" ++ c.type.text ++ ")")

/-- The block of a chip is commented with the names of the chip and of its type. -/
theorem Emit.label_of_piece {j : Job} {c : Chip} {p : Piece} (hp : piece j c = .ok p) :
    p.block.label = "Chip Code" ++ ": " ++ c.id.text ++ " (" ++ c.type.text ++ ")" := by
  obtain ⟨-, -, -, htype, -⟩ := piece_ok hp
  obtain ⟨hid, hdescription, -⟩ := id_of_piece hp
  unfold CodeBlock.label
  rw [hid, hdescription, htype]

theorem Emit.mem_labels_iff {j : Job} {settings : CompileSettings} {debug : Bool} {e : EmittedType}
    (h : run j (j.type.content.plan j.owner settings) debug = .ok e) {label : String} :
    label ∈ e.context.blocks.map (·.label) ↔ Says j label := by
  obtain ⟨chips, pieces, hchips, hpieces, rfl⟩ := run_ok_iff.1 h
  have hpreamble : label ∈ (preamble j).map (·.label) ↔ inputWires j ≠ [] ∧
      label = "Setting Input Vars" ++ ": " ++ j.owner.text ++ " (" ++ j.owner.text ++ ")" := by
    unfold preamble
    cases inputWires j with
    | nil => simp
    | cons w ws => simp [CodeBlock.label]
  show label ∈ (preamble j ++ pieces.map (·.block)).map (·.label) ↔ Says j label
  rw [List.map_append, List.mem_append, hpreamble, List.map_map, List.mem_map]
  constructor
  · rintro (⟨hwires, rfl⟩ | ⟨p, hp, rfl⟩)
    · exact .inputs hwires
    · obtain ⟨c, hc, hpiece⟩ := (mem_pieces hchips hpieces).1 hp
      rw [Function.comp_apply, label_of_piece hpiece]
      exact .chip hc
  · intro hlabel
    cases hlabel with
    | inputs wires => exact Or.inl ⟨wires, rfl⟩
    | @chip c wired =>
      have hc : c ∈ chips := ((planned_wired hchips).2 c).2 wired
      obtain ⟨p, hpiece⟩ := mapM_isOk_iff.1 ⟨pieces, mapM_ok_iff.2 hpieces⟩ c hc
      exact Or.inr ⟨p, (mem_pieces hchips hpieces).2 ⟨c, wired, hpiece⟩, label_of_piece hpiece⟩

namespace Compiler

variable {settings : CompileSettings} {s : Source}

/-- What is said in the comments of a program with the classes of the types: how many types there
are besides the root type, and what is said in the classes. -/
inductive Says (s : Source) (order : List Name) : String → Prop where
  | program : Says s order
      (s.chip.type.text ++ " and " ++ toString ((order.length : Int) - 1) ++ " nested chip type(s)")
  | block {name : Name} {type : ChipType} {label : String} (listed : name ∈ order)
      (known : (knownTypes s).find? name = some type)
      (said : Emit.Says ⟨name, type, knownTypes s⟩ label) : Says s order label

theorem isMade_of_mem {types : TypeTable} {order : List Name} {made : List Made}
    (h : List.Forall₂ (IsMade settings types) order made) {m : Made} (hm : m ∈ made) :
    IsMade settings types m.name m := by
  induction h with
  | nil => exact absurd hm List.not_mem_nil
  | cons hmade _ ih =>
    rcases List.mem_cons.1 hm with rfl | hm
    · exact ⟨rfl, hmade.1 ▸ hmade.2⟩
    · exact ih hm

theorem mem_labels_iff {order : List Name} {made : List Made}
    (h : List.Forall₂ (IsMade settings (knownTypes s)) order made) {label : String} :
    label ∈ (programContext s).labels (made.map (·.emitted.context)) ↔
      Says s (made.map (·.name)) label := by
  have hprogram : ((programContext s).withClasses (made.map (·.emitted.context)) true).label
      = s.chip.type.text ++ " and " ++ toString (((made.map (·.name)).length : Int) - 1)
        ++ " nested chip type(s)" := by
    unfold ProgramContext.label ProgramContext.withClasses
    simp only [List.length_map]
    rfl
  unfold ProgramContext.labels
  rw [List.mem_cons, hprogram, List.flatMap_map, List.mem_flatMap]
  constructor
  · rintro (rfl | ⟨m, hm, hlabel⟩)
    · exact .program
    · obtain ⟨-, type, htype, hrun, -⟩ := isMade_of_mem h hm
      exact .block (List.mem_map_of_mem hm) htype ((Emit.mem_labels_iff hrun).1 hlabel)
  · intro hlabel
    cases hlabel with
    | program => exact Or.inl rfl
    | @block name type label listed known said =>
      obtain ⟨m, hm, rfl⟩ := List.mem_map.1 listed
      obtain ⟨-, type', htype, hrun, -⟩ := isMade_of_mem h hm
      obtain rfl : type = type' := Option.some.inj (known.symm.trans htype)
      exact Or.inr ⟨m, hm, (Emit.mem_labels_iff hrun).2 said⟩

/-! ## §3. Line feeds. -/

/-- No type, no wired chip of one and no type of such a chip has a line feed in its name. -/
def HasLineNames (s : Source) (order : List Name) : Prop :=
  ∀ name ∈ order, '\n' ∉ name.text.toList ∧
    ∀ type c, (knownTypes s).find? name = some type → type.content.Wired c →
      '\n' ∉ c.id.text.toList ∧ '\n' ∉ c.type.text.toList

theorem break_not_mem_toString (i : Int) : '\n' ∉ (toString i).toList := by
  have hdigits : ∀ n : Nat, '\n' ∉ n.repr.toList := by
    intro n hn
    rw [Nat.toList_repr] at hn
    exact absurd (Nat.isDigit_of_mem_toDigits (by decide) (by decide) hn) (by decide)
  cases i with
  | ofNat n => exact hdigits n
  | negSucc n =>
    show '\n' ∉ ("-" ++ (n + 1).repr).toList
    rw [String.toList_append, List.mem_append]
    exact not_or.2 ⟨by decide, hdigits _⟩

theorem staysComment_of_said {order : List Name} (hroot : s.chip.type ∈ order)
    (h : HasLineNames s order) {label : String} (hlabel : Says s order label) :
    StaysComment label := by
  refine Text.staysComment_of_not_mem ?_
  cases hlabel with
  | program =>
    simp only [String.toList_append, List.mem_append, not_or]
    exact ⟨⟨⟨(h _ hroot).1, by decide⟩, break_not_mem_toString _⟩, by decide⟩
  | @block name type label listed known said =>
    obtain ⟨hname, hchips⟩ := h name listed
    cases said with
    | inputs wires =>
      simp only [String.toList_append, List.mem_append, not_or]
      exact ⟨⟨⟨⟨⟨by decide, by decide⟩, hname⟩, by decide⟩, hname⟩, by decide⟩
    | @chip c wired =>
      obtain ⟨hid, htype⟩ := hchips type c known wired
      simp only [String.toList_append, List.mem_append, not_or]
      exact ⟨⟨⟨⟨⟨by decide, by decide⟩, hid⟩, by decide⟩, htype⟩, by decide⟩

/-! ## §4. The setting for comments. -/

/-- The second program is the first one with comments, apart from what line feeds in names do. -/
structure IsCommented (s : Source) (plain commented : Program) : Prop where
  root : commented.root = plain.root
  order : commented.order = plain.order
  needed : commented.needed = plain.needed
  /-- The lines of the first program are left when some of the second one are deleted. -/
  lines : (Text.splitLines plain.code.toList).Sublist (Text.splitLines commented.code.toList)
  /-- The deleted lines can all be comments exactly if what the comments say stays in them. -/
  comments_iff : AddsComments plain.code commented.code ↔
    ∀ label, Says s plain.order label → StaysComment label

theorem isCommented_of_compile {p p' : Program}
    (h : ((builtin settings false).compile s).2 = .ok p)
    (h' : ((builtin settings true).compile s).2 = .ok p') : IsCommented s p p' := by
  obtain ⟨order, made, horder, hmade, rfl⟩ := compile_builtin_iff.1 h
  -- The same classes make the program with comments.
  obtain rfl : programOf s made true = p' :=
    Except.ok.inj ((compile_builtin_iff.2 ⟨order, made, horder, hmade, rfl⟩).symm.trans h')
  have hgains := (programContext s).gains_text (made.map (·.emitted.context))
  constructor
  case root => rfl
  case order => rfl
  case needed => rfl
  case lines => exact hgains.sublist
  case comments_iff =>
    refine ((programContext s).addsComments_iff _).trans ?_
    exact forall_congr' fun label => imp_congr_left (mem_labels_iff hmade)

/-- Comments are all that the setting for them adds, unless a name has a line feed: a source that
can be compiled with the setting or without it can be compiled in both ways, and the text without
comments is the other one without some of its lines; these are comments exactly if whatever the
comments say stays in them, and so they are if no name has a line feed. -/
theorem debug_comments (settings : CompileSettings) (s : Source) {debug : Bool} {program : Program}
    (h : ((builtin settings debug).compile s).2 = .ok program) :
    ∃ plain commented, ((builtin settings false).compile s).2 = .ok plain ∧
      ((builtin settings true).compile s).2 = .ok commented ∧ IsCommented s plain commented ∧
      (HasLineNames s plain.order → AddsComments plain.code commented.code) := by
  obtain ⟨plain, hplain, -⟩ := exists_builtin h false
  obtain ⟨commented, hcommented, -⟩ := exists_builtin h true
  have hdiffer : IsCommented s plain commented := isCommented_of_compile hplain hcommented
  refine ⟨plain, commented, hplain, hcommented, hdiffer, fun hnames => ?_⟩
  exact hdiffer.comments_iff.2 fun label => staysComment_of_said (root_mem_order hplain) hnames

theorem hasLineNames_bench : HasLineNames benchSource [⟨"counter"⟩, ⟨"bench"⟩] := by
  intro name hname
  simp only [List.mem_cons, List.not_mem_nil, or_false] at hname
  rcases hname with rfl | rfl
  · refine ⟨by decide, ?_⟩
    intro type c htype hc
    obtain rfl : counterType = type := Option.some.inj (find?_counter.symm.trans htype)
    obtain ⟨-, w, hw, -⟩ := hc
    exact absurd hw List.not_mem_nil
  · refine ⟨by decide, ?_⟩
    intro type c htype hc
    obtain rfl : benchType = type := Option.some.inj (find?_bench.symm.trans htype)
    have hchips : ∀ d ∈ benchType.content.chips.values,
        '\n' ∉ d.id.text.toList ∧ '\n' ∉ d.type.text.toList := by decide
    exact hchips c (Content.chip?_eq_some_iff.1 hc.1).1

/-- Comments are all that is added to a program with a counter. -/
theorem debug_comments_bench : ∃ plain commented,
    ((builtin {} false).compile benchSource).2 = .ok plain ∧
    ((builtin {} true).compile benchSource).2 = .ok commented ∧
    IsCommented benchSource plain commented ∧ AddsComments plain.code commented.code := by
  obtain ⟨program, hprogram, horder⟩ := compile_benchSource
  obtain ⟨p, hp, hsame⟩ : ∃ p, ((builtin {} true).compile benchSource).2 = .ok p ∧
      p.order = program.order := exists_builtin hprogram true
  obtain ⟨plain, commented, hplain, hcommented, hdiffer, hnames⟩ :=
    debug_comments {} benchSource hp
  refine ⟨plain, commented, hplain, hcommented, hdiffer, hnames ?_⟩
  -- The program with comments has the types of the one without them.
  obtain rfl : commented = p := Except.ok.inj (hcommented.symm.trans hp)
  rw [← hdiffer.order, hsame, horder]
  exact hasLineNames_bench

/-- A chip with a line feed in its name. -/
def tornChip : Chip := .ofPlace ⟨"g\nh"⟩ ⟨"cell"⟩ .zero

def tornType : ChipType :=
  { Emit.follower with
    content := .ofChips .one [tornChip] [.between ⟨⟨"top"⟩, false, "A"⟩ ⟨⟨"g\nh"⟩, false, "A"⟩ 0] }

def tornSource : Source :=
  ⟨.ofPlace ⟨"board"⟩ ⟨"top"⟩ .zero, .ofList [(⟨"cell"⟩, Emit.follower), (⟨"top"⟩, tornType)]⟩

theorem find?_torn : (knownTypes tornSource).find? ⟨"top"⟩ = some tornType := by cbv

theorem compile_tornSource : ∃ program, (Emit.silent.compile tornSource).2 = .ok program ∧
    program.order = [⟨"cell"⟩, ⟨"top"⟩] := by
  have horder : typeOrder (knownTypes tornSource) ⟨"top"⟩ = .ok [⟨"cell"⟩, ⟨"top"⟩] := by cbv
  have hcell : (knownTypes tornSource).find? ⟨"cell"⟩ = some Emit.follower := by cbv
  refine Emit.compile_silent horder ?_
  intro name hname
  simp only [List.mem_cons, List.not_mem_nil, or_false] at hname
  rcases hname with rfl | rfl
  · refine ⟨Emit.follower, hcell, ?_⟩
    intro c hc
    obtain ⟨-, w, hw, -⟩ := hc
    exact absurd hw List.not_mem_nil
  · refine ⟨tornType, find?_torn, ?_⟩
    intro c hc
    have htypes : ∀ d ∈ tornType.content.chips.values, d.type = ⟨"cell"⟩ := by decide
    exact ⟨Emit.follower, htypes c (Content.chip?_eq_some_iff.1 hc.1).1 ▸ hcell, rfl⟩

/-- The comment of the chip is torn: what comes behind the line feed is a line of the program. -/
theorem not_addsComments : ∃ plain commented,
    ((builtin {} false).compile tornSource).2 = .ok plain ∧
    ((builtin {} true).compile tornSource).2 = .ok commented ∧
    ¬ AddsComments plain.code commented.code := by
  obtain ⟨program, hprogram, horder⟩ := compile_tornSource
  obtain ⟨plain, hplain, hsame⟩ := exists_builtin hprogram false
  obtain ⟨commented, hcommented, -⟩ := exists_builtin hprogram true
  refine ⟨plain, commented, hplain, hcommented, fun hadds => ?_⟩
  have hlisted : ⟨"top"⟩ ∈ plain.order := by
    rw [hsame, horder]
    decide
  have hwired : tornType.content.Wired tornChip :=
    ⟨by rfl, _, List.mem_singleton_self _, Or.inr rfl⟩
  have hsaid : Emit.Says ⟨⟨"top"⟩, tornType, knownTypes tornSource⟩ _ := .chip hwired
  have hstays := (isCommented_of_compile hplain hcommented).comments_iff.1 hadds _
    (.block hlisted find?_torn hsaid)
  exact absurd (hstays "h (cell)".toList (by decide)) (by decide)

end Compiler

end LogicBoard
