/-
  LogicBoard.Proofs.Compile.Names
  ────────────────────────────────
  **WHICH NAMES OF A PROGRAM ARE DIFFERENT.**

  The names in the text of a program are made by folding, which forgets what
  stands between words.  Pins, constants, objects and classes have names of
  their own exactly as long as they can be told apart by their words; those
  that cannot share a variable, a member or a class, and nothing is reported.

  Main statements:
    • `constants_of_run`, `members_of_run` — what the names of constants and
      objects in a class are those of,
    • `distinctWords_of_isWord` — when names are different for sure,
    • `distinctNames_iff` — when they are different,
    • `not_distinctNames` — contents can be edited in which they are not.
-/
import LogicBoard.Proofs.Compile.Declarations
import LogicBoard.Proofs.Compile.Identifiers
import LogicBoard.Proofs.Compile.Programs
import LogicBoard.Proofs.Edit.Operation

namespace LogicBoard

instance (types : TypeTable) (u : Name) : Decidable (types.IsComposite u) :=
  decidable_of_iff ((types.find? u).any (·.isComposite) = true) (by
    simp [TypeTable.IsComposite, ChipType.isComposite, Option.any_eq_true])

namespace Emit

open Identifier (words classWords isWord)

variable {j : Job} {settings : CompileSettings} {debug : Bool} {e : EmittedType}

/-! ## §1. What has a name. -/

/-- The chip is wired, and its type has the constant. -/
def HasConstant (j : Job) (c : Chip) (key : String) : Prop :=
  j.type.content.Wired c ∧ key ∈ (j.types.lookup.get c.type).constants

/-- The chip is wired, and its type is composite. -/
def HasObject (j : Job) (c : Chip) : Prop :=
  j.type.content.Wired c ∧ j.types.IsComposite c.type

/-- The constants of a chip, each with the chip. -/
def constantPairs (j : Job) (c : Chip) : List (Chip × String) :=
  (c.resolvedConstants j.types.lookup).keys.map (Prod.mk c)

/-- The variable of a constant of a chip. -/
def constantName (p : Chip × String) : String := Identifier.constant p.1.id.text p.2

theorem mem_constantPairs {c d : Chip} {key : String} :
    (d, key) ∈ constantPairs j c ↔ d = c ∧ key ∈ (j.types.lookup.get c.type).constants := by
  have hkeys : key ∈ (c.resolvedConstants j.types.lookup).keys ↔
      key ∈ (j.types.lookup.get c.type).constants := by
    unfold Chip.resolvedConstants
    rw [Table.mem_keys_ofList, List.map_map]
    simp
  rw [← hkeys]
  simp [constantPairs, eq_comm, and_comm]

theorem constantPairs_nodup (j : Job) (c : Chip) : (constantPairs j c).Nodup :=
  (Table.keys_nodup _).map fun _ _ h => (Prod.mk.inj h).2

/-! ## §2. What the names of a class are those of. -/

/-- What a chip contributes names its constants, and its object if its type is composite. -/
theorem names_of_piece [Template.Engine] {c : Chip} {p : Piece} (h : piece j c = .ok p) :
    p.bindings.map (·.name) = (constantPairs j c).map constantName ∧
      p.object.map (·.member)
        = if j.types.IsComposite c.type then some (Identifier.object c.id) else none := by
  have hbindings : (bindingsOf j c).map (·.name) = (constantPairs j c).map constantName := by
    unfold bindingsOf constantsOf constantPairs Table.keys
    simp only [List.map_map]
    rfl
  obtain ⟨t, ht, ⟨code, text, hcode, -, rfl⟩ | ⟨hcode, rfl⟩⟩ := piece_cases h
  · have hstandard : ¬ j.types.IsComposite c.type := by
      rw [TypeTable.isComposite_iff ht]
      simp [ChipType.isComposite, hcode]
    rw [if_neg hstandard]
    exact ⟨hbindings, rfl⟩
  · rw [if_pos ⟨t, ht, hcode⟩]
    exact ⟨hbindings, rfl⟩

/-- The names of constants in a class are those of the constants of its wired chips. -/
theorem constants_of_run [Template.Engine]
    (h : run j (j.type.content.plan j.owner settings) debug = .ok e) :
    ∃ pairs : List (Chip × String), pairs.Nodup ∧
      (∀ c key, (c, key) ∈ pairs ↔ HasConstant j c key) ∧
      e.context.bindings.map (·.name) = pairs.map constantName := by
  obtain ⟨chips, pieces, hchips, hpieces, rfl⟩ := run_ok_iff.1 h
  obtain ⟨hnodup, hwired⟩ := planned_wired hchips
  refine ⟨chips.flatMap (constantPairs j), ?_, ?_, ?_⟩
  · refine List.nodup_flatMap.2 ⟨fun c _ => constantPairs_nodup j c, ?_⟩
    -- The pairs of different chips are different.
    refine hnodup.imp fun {c d} hne => List.disjoint_left.2 ?_
    intro p hc hd
    exact hne ((mem_constantPairs.1 hc).1.symm.trans (mem_constantPairs.1 hd).1)
  · intro c key
    rw [List.mem_flatMap]
    unfold HasConstant
    rw [← hwired]
    constructor
    · intro hp
      obtain ⟨d, hd, hpair⟩ := hp
      obtain ⟨rfl, hkey⟩ := mem_constantPairs.1 hpair
      exact ⟨hd, hkey⟩
    · intro hp
      exact ⟨c, hp.1, mem_constantPairs.2 ⟨rfl, hp.2⟩⟩
  · show (pieces.flatMap (·.bindings)).map (·.name) = _
    clear hnodup hwired hchips h
    induction hpieces with
    | nil => rfl
    | cons hp _ ih =>
      rw [List.flatMap_cons, List.map_append, ih, (names_of_piece hp).1, List.flatMap_cons,
        List.map_append]

/-- The members of objects in a class are those of its wired chips of composite types. -/
theorem members_of_run [Template.Engine]
    (h : run j (j.type.content.plan j.owner settings) debug = .ok e) :
    ∃ chips : List Chip, chips.Nodup ∧ (∀ c, c ∈ chips ↔ HasObject j c) ∧
      e.context.objects.map (·.member) = chips.map fun c => Identifier.object c.id := by
  obtain ⟨chips, pieces, hchips, hpieces, rfl⟩ := run_ok_iff.1 h
  obtain ⟨hnodup, hwired⟩ := planned_wired hchips
  refine ⟨chips.filter fun c => j.types.IsComposite c.type, hnodup.filter _, ?_, ?_⟩
  · intro c
    rw [List.mem_filter, hwired, decide_eq_true_iff]
    exact Iff.rfl
  · show (pieces.filterMap (·.object)).map (·.member) = _
    clear hnodup hwired hchips h
    rw [List.map_filterMap]
    induction hpieces with
    | nil => rfl
    | @cons c p chips pieces hp _ ih =>
      rw [List.filterMap_cons, (names_of_piece hp).2, List.filter_cons]
      by_cases hcomposite : j.types.IsComposite c.type
      · rw [if_pos hcomposite, if_pos (decide_eq_true hcomposite), List.map_cons]
        exact congrArg _ ih
      · rw [if_neg hcomposite, if_neg (by simpa using hcomposite)]
        exact ih

/-! ## §3. Different names. -/

/-- What should have names of its own in a class has them. -/
structure DistinctNames (j : Job) (e : EmittedType) : Prop where
  /-- Every variable that is declared for pins is that of one pin. -/
  pins : ∀ v, Declared e v → ∃! p, HasPort j p ∧ Identifier.ofPin p = v
  /-- The constants of all chips have different variables. -/
  constants : (e.context.bindings.map (·.name)).Nodup
  /-- The objects of all chips have different members. -/
  members : (e.context.objects.map (·.member)).Nodup

/-- What should have names of its own in a class can be told apart by words. -/
structure DistinctWords (j : Job) : Prop where
  pins : ∀ p q, HasPort j p → HasPort j q → p.output = q.output →
    words p.chip.text ++ words p.port = words q.chip.text ++ words q.port → p = q
  constants : ∀ c d key key', HasConstant j c key → HasConstant j d key' →
    words c.id.text ++ words key = words d.id.text ++ words key' → c = d ∧ key = key'
  members : ∀ c d, HasObject j c → HasObject j d → words c.id.text = words d.id.text → c = d

theorem pins_unique_iff [Template.Engine]
    (h : run j (j.type.content.plan j.owner settings) debug = .ok e) :
    (∀ v, Declared e v → ∃! p, HasPort j p ∧ Identifier.ofPin p = v) ↔
      ∀ p q, HasPort j p → HasPort j q → p.output = q.output →
        words p.chip.text ++ words p.port = words q.chip.text ++ words q.port → p = q := by
  constructor
  · intro hunique p q hp hq hside hwords
    -- The variable of a port is declared.
    have hdeclared : Declared e (Identifier.ofPin p) := (declared_iff h).2 ⟨p, hp, rfl⟩
    have hsame : Identifier.ofPin q = Identifier.ofPin p :=
      Identifier.ofPin_eq_iff.2 ⟨hside.symm, hwords.symm⟩
    exact (hunique _ hdeclared).unique ⟨hp, rfl⟩ ⟨hq, hsame⟩
  · intro hwords v hv
    obtain ⟨p, hp, hname⟩ := (declared_iff h).1 hv
    refine ⟨p, ⟨hp, hname⟩, ?_⟩
    intro q hq
    obtain ⟨hside, hsame⟩ := Identifier.ofPin_eq_iff.1 (hq.2.trans hname.symm)
    exact hwords q p hq.1 hp hside hsame

theorem constants_nodup_iff [Template.Engine]
    (h : run j (j.type.content.plan j.owner settings) debug = .ok e) :
    (e.context.bindings.map (·.name)).Nodup ↔
      ∀ c d key key', HasConstant j c key → HasConstant j d key' →
        words c.id.text ++ words key = words d.id.text ++ words key' → c = d ∧ key = key' := by
  obtain ⟨pairs, hnodup, hpairs, hnames⟩ := constants_of_run h
  rw [hnames, List.nodup_map_iff_inj_on hnodup]
  constructor
  · intro hinj c d key key' hc hd hwords
    exact Prod.mk.inj (hinj _ ((hpairs c key).2 hc) _ ((hpairs d key').2 hd)
      (Identifier.constant_eq_iff.2 hwords))
  · intro hwords p hp q hq hname
    obtain ⟨hchip, hkey⟩ := hwords p.1 q.1 p.2 q.2 ((hpairs _ _).1 hp) ((hpairs _ _).1 hq)
      (Identifier.constant_eq_iff.1 hname)
    exact Prod.ext hchip hkey

theorem members_nodup_iff [Template.Engine]
    (h : run j (j.type.content.plan j.owner settings) debug = .ok e) :
    (e.context.objects.map (·.member)).Nodup ↔
      ∀ c d, HasObject j c → HasObject j d → words c.id.text = words d.id.text → c = d := by
  obtain ⟨chips, hnodup, hchips, hnames⟩ := members_of_run h
  rw [hnames, List.nodup_map_iff_inj_on hnodup]
  simp only [hchips, Identifier.object_eq_iff]
  constructor
  · intro hinj c d hc hd hwords
    exact hinj c hc d hd hwords
  · intro hwords c hc d hd hname
    exact hwords c d hc hd hname

/-! ## §4. Plain names. -/

/-- The name is that of the type or of a wired chip. -/
def IsInUse (j : Job) (id : Name) : Prop :=
  id = j.owner ∨ ∃ c, j.type.content.Wired c ∧ c.id = id

/-- Different names are made if ports and constants are named by single words, and chips by words
that differ. -/
theorem distinctWords_of_isWord
    (hids : ∀ id id', IsInUse j id → IsInUse j id' → words id.text = words id'.text → id = id')
    (hports : ∀ p, HasPort j p → isWord p.port = true)
    (hkeys : ∀ c key, HasConstant j c key → isWord key = true) : DistinctWords j := by
  have hinUse : ∀ p, HasPort j p → IsInUse j p.chip := by
    intro p hp
    rcases hp with ⟨howner, -⟩ | ⟨c, hc, hid, -⟩
    · exact Or.inl howner
    · exact Or.inr ⟨c, hc, hid⟩
  have hwired : ∀ c d, j.type.content.Wired c → j.type.content.Wired d →
      words c.id.text = words d.id.text → c = d := by
    intro c d hc hd hwords
    have hid : c.id = d.id := hids _ _ (Or.inr ⟨c, hc, rfl⟩) (Or.inr ⟨d, hd, rfl⟩) hwords
    exact Option.some.inj (hc.1.symm.trans (hid ▸ hd.1))
  constructor
  case pins =>
    intro p q hp hq hside hwords
    obtain ⟨hchip, hport⟩ := Identifier.words_append_inj (hports p hp) (hports q hq) hwords
    have hsame : p.chip = q.chip := hids _ _ (hinUse p hp) (hinUse q hq) hchip
    obtain ⟨chip, output, port⟩ := p
    obtain ⟨chip', output', port'⟩ := q
    rw [Pin.mk.injEq]
    exact ⟨hsame, hside, hport⟩
  case constants =>
    intro c d key key' hc hd hwords
    obtain ⟨hchip, hkey⟩ := Identifier.words_append_inj (hkeys c key hc) (hkeys d key' hd) hwords
    exact ⟨hwired c d hc.1 hd.1 hchip, hkey⟩
  case members =>
    intro c d hc hd hwords
    exact hwired c d hc.1 hd.1 hwords

/-- In a relay everything is named by single words. -/
theorem distinctWords_relay : DistinctWords (relay "R") := by
  have hinUse : ∀ id, IsInUse (relay "R") id → isWord id.text = true := by
    intro id hid
    rcases hid with howner | ⟨c, hc, hid⟩
    · rw [howner]
      decide
    · rw [← hid]
      rcases relay_wired hc with hchip | hchip
      · rw [hchip]
        decide
      · rw [hchip]
        decide
  have htype : ∀ c, (relay "R").type.content.Wired c →
      (relay "R").types.lookup.get c.type = follower := by
    intro c hc
    rcases relay_wired hc with hchip | hchip
    · rw [hchip]
      rfl
    · rw [hchip]
      rfl
  apply distinctWords_of_isWord
  · intro id id' hid hid' hwords
    rw [Identifier.words_of_isWord (hinUse id hid),
      Identifier.words_of_isWord (hinUse id' hid'), List.singleton_inj,
      String.toList_inj] at hwords
    exact congrArg Name.mk hwords
  · intro p hp
    have hport : p.port ∈ follower.namedPorts p.output := by
      rcases hp with ⟨-, hport⟩ | ⟨c, hc, -, hport⟩
      · exact hport
      · exact htype c hc ▸ hport
    have hnamed : ∀ output, ∀ port ∈ follower.namedPorts output, isWord port = true := by decide
    exact hnamed p.output p.port hport
  · intro c key hkey
    obtain ⟨hc, hmem⟩ := hkey
    rw [htype c hc] at hmem
    exact absurd hmem List.not_mem_nil

/-! ## §5. A clash. -/

/-- The content was made in an editing session that started without chips. -/
def IsEdited (j : Job) : Prop :=
  ∃ (size : Vec) (settings : RouteSettings) (ops : List Operation) (e : Editor), 0 ≤ size.y ∧
    Editor.run j.types.lookup ⟨j.owner, .ofSize size, settings⟩ ops = .ok e ∧
    e.content = j.type.content

/-- A type with input `A`, output `R` and constant `K`. -/
def cellType : ChipType := { follower with constants := ["K"] }

/-- Two cells, one at the top and one at the bottom, both of them wired to the edge. -/
def clashSession : List Operation :=
  [.addChip (.ofPlace ⟨"sub-1"⟩ ⟨"cell-1"⟩ .zero),
   .addChip (.ofPlace ⟨"sub.1"⟩ ⟨"cell.1"⟩ ⟨0, 7⟩),
   .connect ⟨⟨"top"⟩, false, "A"⟩ ⟨⟨"sub-1"⟩, false, "A"⟩ 0,
   .connect ⟨⟨"sub.1"⟩, true, "R"⟩ ⟨⟨"top"⟩, true, "R"⟩ 0]

/-- What the session makes. -/
def clashContent : Content := .ofChips ⟨2, 2⟩
  [.ofPlace ⟨"sub-1"⟩ ⟨"cell-1"⟩ .zero, .ofPlace ⟨"sub.1"⟩ ⟨"cell.1"⟩ ⟨0, 7⟩]
  [⟨0, [⟨0, 0⟩, ⟨0, -1⟩], ⟨⟨"top"⟩, false, "A"⟩, ⟨⟨"sub-1"⟩, false, "A"⟩, false, true⟩,
   ⟨0, [⟨0, 9⟩, ⟨0, 8⟩], ⟨⟨"sub.1"⟩, true, "R"⟩, ⟨⟨"top"⟩, true, "R"⟩, false, true⟩]

/-- The type around the cells. -/
def clashType : ChipType :=
  { ChipType.skeleton with
    size := ⟨2, 2⟩
    inputs := ["A", "", ""]
    outputs := ["R", "", ""]
    content := clashContent }

/-- Types with names that differ between words only. -/
def clashTypes : TypeTable :=
  .ofList [(⟨"cell-1"⟩, cellType), (⟨"cell.1"⟩, cellType), (⟨"top"⟩, clashType)]

/-- The class of the type around the cells. -/
def clash : Job := ⟨⟨"top"⟩, clashType, clashTypes⟩

/-- A class is made if the types of all wired chips are composite. -/
theorem run_isOk_of_isComposite [Template.Engine] (settings : CompileSettings) (debug : Bool)
    (h : ∀ c, j.type.content.Wired c → j.types.IsComposite c.type) :
    ∃ e, run j (j.type.content.plan j.owner settings) debug = .ok e := by
  refine run_isOk_iff.2 fun c hc => ?_
  obtain ⟨t, ht, hnone⟩ := h c hc
  exact ⟨callLines c t, .call ht hnone⟩

theorem clash_isComposite : ∀ c ∈ clashContent.chips.values, clashTypes.IsComposite c.type := by
  decide

theorem isEdited_clash : IsEdited clash := by
  have hrun : (Editor.run clashTypes.lookup ⟨⟨"top"⟩, .ofSize ⟨2, 2⟩, {}⟩ clashSession).map
      (·.content) = .ok clashContent := by cbv
  obtain ⟨e, he, hcontent⟩ := Fallible.map_ok_iff.1 hrun
  exact ⟨⟨2, 2⟩, {}, clashSession, e, by decide, he, hcontent⟩

/-- The inputs of the two cells are pins of the class, and different ones. -/
theorem hasPort_clash : HasPort clash ⟨⟨"sub-1"⟩, false, "A"⟩ ∧
    HasPort clash ⟨⟨"sub.1"⟩, false, "A"⟩ := by
  constructor
  · refine Or.inr ⟨.ofPlace ⟨"sub-1"⟩ ⟨"cell-1"⟩ .zero, ⟨rfl, ?_⟩, rfl, by decide⟩
    exact ⟨_, List.mem_cons_self, Or.inr rfl⟩
  · refine Or.inr ⟨.ofPlace ⟨"sub.1"⟩ ⟨"cell.1"⟩ ⟨0, 7⟩, ⟨rfl, ?_⟩, rfl, by decide⟩
    exact ⟨_, List.mem_cons_of_mem _ List.mem_cons_self, Or.inl rfl⟩

/-- A compiler that writes nothing down. -/
def silent : Compiler := { templates := ⟨"", ""⟩ }

theorem fill_empty (name : String) (scope : Template.Scope) :
    Templates.fill name "" scope = .ok "" := by
  cbv

/-- A source with the type around the cells. -/
def clashSource : Source := ⟨.ofPlace ⟨"board"⟩ ⟨"top"⟩ .zero, clashTypes⟩

theorem exists_isCompiled {types : TypeTable} {name : Name} {t : ChipType}
    (hfind : types.find? name = some t)
    (hchips : ∀ c, t.content.Wired c → types.IsComposite c.type) :
    ∃ p, silent.IsCompiled types name p := by
  obtain ⟨e, he⟩ := run_isOk_of_isComposite (j := ⟨name, t, types⟩) silent.settings
    silent.settings.debug hchips
  have hwrite : silent.templates.writeClass e.context = .ok "" := fill_empty _ _
  exact ⟨⟨name, _⟩, rfl, t, hfind, Compiler.compileType_ok_iff.2 ⟨e, "", he, hwrite, rfl⟩⟩

/-- A source is compiled if the wired chips of all types that are needed have composite types. -/
theorem compile_silent {s : Source} {order : List Name}
    (horder : Compiler.typeOrder (Compiler.knownTypes s) s.chip.type = .ok order)
    (hchips : ∀ name ∈ order, ∃ t, (Compiler.knownTypes s).find? name = some t ∧
      ∀ c, t.content.Wired c → (Compiler.knownTypes s).IsComposite c.type) :
    ∃ program, (silent.compile s).2 = .ok program ∧ program.order = order := by
  have hall : ∀ names : List Name, (∀ name ∈ names, name ∈ order) →
      ∃ compiled, List.Forall₂ (silent.IsCompiled (Compiler.knownTypes s)) names compiled := by
    intro names
    induction names with
    | nil =>
      intro _
      exact ⟨[], .nil⟩
    | cons name rest ih =>
      intro hnames
      obtain ⟨hname, hrest⟩ := List.forall_mem_cons.1 hnames
      obtain ⟨t, hfind, hcomposite⟩ := hchips name hname
      obtain ⟨p, hp⟩ := exists_isCompiled hfind hcomposite
      obtain ⟨compiled, hcompiled⟩ := ih hrest
      exact ⟨p :: compiled, .cons hp hcompiled⟩
  obtain ⟨compiled, hcompiled⟩ := hall order fun _ h => h
  obtain ⟨program, hprogram⟩ : ∃ program,
      silent.assemble s (Compiler.knownTypes s) compiled = .ok program :=
    ⟨_, Compiler.assemble_ok_iff.2 ⟨"", fill_empty _ _, rfl⟩⟩
  refine ⟨program, Compiler.compile_ok_iff.2 ⟨_, _, horder, hcompiled, hprogram⟩, ?_⟩
  obtain ⟨code, -, rfl⟩ := Compiler.assemble_ok_iff.1 hprogram
  exact Compiler.map_fst_of_isCompiled hcompiled

/-- The program has three classes. -/
theorem compile_clashSource : ∃ program, (silent.compile clashSource).2 = .ok program ∧
    program.order = [⟨"cell-1"⟩, ⟨"cell.1"⟩, ⟨"top"⟩] := by
  have horder : Compiler.typeOrder (Compiler.knownTypes clashSource) ⟨"top"⟩
      = .ok [⟨"cell-1"⟩, ⟨"cell.1"⟩, ⟨"top"⟩] := by cbv
  have hcell : (Compiler.knownTypes clashSource).find? ⟨"cell-1"⟩ = some cellType := by cbv
  have hcell' : (Compiler.knownTypes clashSource).find? ⟨"cell.1"⟩ = some cellType := by cbv
  have htop : (Compiler.knownTypes clashSource).find? ⟨"top"⟩ = some clashType := by cbv
  have hnone : ∀ c, ¬ cellType.content.Wired c := by
    intro c hc
    obtain ⟨-, w, hw, -⟩ := hc
    exact absurd hw List.not_mem_nil
  have hchips : ∀ c, clashContent.Wired c →
      (Compiler.knownTypes clashSource).IsComposite c.type := by
    intro c hc
    have htypes : ∀ d ∈ clashContent.chips.values, d.type = ⟨"cell-1"⟩ ∨ d.type = ⟨"cell.1"⟩ := by
      decide
    rcases htypes c (Content.chip?_eq_some_iff.1 hc.1).1 with htype | htype
    · exact ⟨cellType, htype ▸ hcell, rfl⟩
    · exact ⟨cellType, htype ▸ hcell', rfl⟩
  refine compile_silent horder ?_
  intro name hname
  simp only [List.mem_cons, List.not_mem_nil, or_false] at hname
  rcases hname with rfl | rfl | rfl
  · exact ⟨cellType, hcell, fun c hc => absurd hc (hnone c)⟩
  · exact ⟨cellType, hcell', fun c hc => absurd hc (hnone c)⟩
  · exact ⟨clashType, htop, hchips⟩

/-! ## §6. Which names are different. -/

/-- Names are different exactly if what they stand for can be told apart by words: in the class of
a type, and in a program its classes. -/
theorem distinctNames_iff [Template.Engine] (j : Job) (settings : CompileSettings)
    (debug : Bool) (c : Compiler) (s : Source) :
    (∀ e, run j (j.type.content.plan j.owner settings) debug = .ok e →
      (DistinctNames j e ↔ DistinctWords j)) ∧
    ∀ program, (c.compile s).2 = .ok program →
      ((program.order.map Identifier.className).Nodup ↔
        ∀ t ∈ program.order, ∀ u ∈ program.order, classWords t = classWords u → t = u) := by
  constructor
  · intro e h
    constructor
    · intro hnames
      exact {
        pins := (pins_unique_iff h).1 hnames.pins
        constants := (constants_nodup_iff h).1 hnames.constants
        members := (members_nodup_iff h).1 hnames.members }
    · intro hwords
      exact {
        pins := (pins_unique_iff h).2 hwords.pins
        constants := (constants_nodup_iff h).2 hwords.constants
        members := (members_nodup_iff h).2 hwords.members }
  · intro program h
    rw [List.nodup_map_iff_inj_on (Compiler.order_of_compile h).nodup]
    simp only [Identifier.className_eq_iff]

/-- A relay names everything in it differently, whereas two classes of the source with the cells
have one name. -/
theorem distinctNames_relay :
    (∃ e, run (relay "R") (relayPlan "R") false = .ok e ∧ DistinctNames (relay "R") e) ∧
    ∃ program, (silent.compile clashSource).2 = .ok program ∧
      ¬ (program.order.map Identifier.className).Nodup := by
  constructor
  · obtain ⟨e, he⟩ := relay_isOk "R"
    exact ⟨e, he, ((distinctNames_iff (relay "R") {} false {} clashSource).1 e he).2
      distinctWords_relay⟩
  · obtain ⟨program, hprogram, horder⟩ := compile_clashSource
    refine ⟨program, hprogram, fun hnodup => ?_⟩
    have hwords := ((distinctNames_iff clash {} false silent clashSource).2 program hprogram).1 hnodup
    rw [horder] at hwords
    exact absurd (hwords ⟨"cell-1"⟩ (by decide) ⟨"cell.1"⟩ (by decide) (by decide)) (by decide)

/-- Neither the classes of types that were edited nor the programs have different names
throughout. -/
theorem not_distinctNames :
    (¬ ∀ (j : Job) (settings : CompileSettings) (debug : Bool) (e : EmittedType), IsEdited j →
      (∀ t ∈ j.type :: j.types.values, ∀ output, (t.namedPorts output).Nodup) →
      run j (j.type.content.plan j.owner settings) debug = .ok e → DistinctNames j e) ∧
    ¬ ∀ (c : Compiler) (s : Source) (program : Program), (c.compile s).2 = .ok program →
      (program.order.map Identifier.className).Nodup := by
  constructor
  · intro hall
    obtain ⟨e, he⟩ := run_isOk_of_isComposite (j := clash) {} false fun c hc =>
      clash_isComposite c (Content.chip?_eq_some_iff.1 hc.1).1
    have hnames := hall clash {} false e isEdited_clash (by decide) he
    -- The inputs of the cells differ in a separator, so they share a variable.
    have hdeclared : Declared e "I_sub_1_A" := (declared_iff he).2 ⟨_, hasPort_clash.1, by decide⟩
    have hsame := (hnames.pins _ hdeclared).unique ⟨hasPort_clash.1, by decide⟩
      ⟨hasPort_clash.2, by decide⟩
    exact absurd hsame (by decide)
  · intro hall
    obtain ⟨program, hprogram, horder⟩ := compile_clashSource
    have hnodup := hall silent clashSource program hprogram
    rw [horder] at hnodup
    exact absurd hnodup (by decide)

end Emit

end LogicBoard
