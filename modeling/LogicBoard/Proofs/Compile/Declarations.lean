/-
  LogicBoard.Proofs.Compile.Declarations
  ────────────────────────────────
  **WHICH VARIABLES A CLASS DECLARES.**

  A class declares the variables of the ports that its type and the types of
  its wired chips have.  A wire is written down if the chips at its ends
  exist, whether or not they have the ports it names, so the variables of a
  statement are declared exactly if some ports have them.

  Main statements:
    • `declared_iff` — the declared variables are those of the ports,
    • `declaredWiring_iff` — when all that the wires use is declared.
-/
import LogicBoard.Proofs.Compile.Blocks

namespace LogicBoard.Emit

/-! ## §1. Ports. -/

/-- The boundary of the type, or a wired chip, has a port for the pin. -/
def HasPort (j : Job) (p : Pin) : Prop :=
  (p.chip = j.owner ∧ p.port ∈ j.type.namedPorts p.output) ∨
    ∃ c, j.type.content.Wired c ∧ c.id = p.chip ∧
      p.port ∈ (j.types.lookup.get c.type).namedPorts p.output

/-- Some port has the variable. -/
def IsPortVariable (j : Job) (v : String) : Prop := ∃ p, HasPort j p ∧ Identifier.ofPin p = v

/-- The class has the variable as a parameter or declares it. -/
def Declared (e : EmittedType) (v : String) : Prop :=
  v ∈ e.context.inputs ∨ v ∈ e.context.locals

theorem mem_portVariables {chip : Name} {t : ChipType} {v : String} :
    v ∈ portVariables chip t ↔
      ∃ output, ∃ port ∈ t.namedPorts output, Identifier.ofPin ⟨chip, output, port⟩ = v := by
  unfold portVariables
  rw [List.mem_append, List.mem_map, List.mem_map]
  constructor
  · rintro (⟨port, hport, hv⟩ | ⟨port, hport, hv⟩)
    · exact ⟨false, port, hport, hv⟩
    · exact ⟨true, port, hport, hv⟩
  · rintro ⟨_ | _, port, hport, hv⟩
    · exact Or.inl ⟨port, hport, hv⟩
    · exact Or.inr ⟨port, hport, hv⟩

/-! ## §2. Declarations. -/

/-- Leaving out what is declared already leaves nothing undeclared. -/
theorem mem_undeclared {taken l : List String} {v : String} :
    v ∈ taken ∨ v ∈ undeclared taken l ↔ v ∈ taken ∨ v ∈ l := by
  induction l generalizing taken with
  | nil => rfl
  | cons a rest ih =>
    unfold undeclared
    split
    · rename_i ha
      have ha' : a ∈ taken := List.contains_iff_mem.1 ha
      rw [ih, List.mem_cons]
      constructor
      · rintro (h | h)
        · exact Or.inl h
        · exact Or.inr (Or.inr h)
      · rintro (h | rfl | h)
        · exact Or.inl h
        · exact Or.inl ha'
        · exact Or.inr h
    · -- From here on the variable counts as taken.
      have hrest := @ih (a :: taken)
      rw [List.mem_cons] at hrest
      rw [List.mem_cons, List.mem_cons]
      constructor
      · rintro (h | rfl | h)
        · exact Or.inl h
        · exact Or.inr (Or.inl rfl)
        · obtain (rfl | h) | h := hrest.1 (Or.inr h)
          · exact Or.inr (Or.inl rfl)
          · exact Or.inl h
          · exact Or.inr (Or.inr h)
      · rintro (h | rfl | h)
        · exact Or.inl h
        · exact Or.inr (Or.inl rfl)
        · obtain (rfl | h) | h := hrest.2 (Or.inr h)
          · exact Or.inr (Or.inl rfl)
          · exact Or.inl h
          · exact Or.inr (Or.inr h)

/-- The declared variables are those of the ports. -/
theorem declared_iff [Template.Engine] {j : Job} {settings : CompileSettings} {debug : Bool}
    {e : EmittedType} (h : run j (j.type.content.plan j.owner settings) debug = .ok e) {v : String} :
    Declared e v ↔ IsPortVariable j v := by
  obtain ⟨chips, pieces, hchips, -, rfl⟩ := run_ok_iff.1 h
  obtain ⟨-, hwired⟩ := planned_wired hchips
  show v ∈ (j.type.namedPorts false).map (Identifier.input j.owner.text) ∨
    v ∈ undeclared _ (chipPins j chips ++ (j.type.namedPorts true).map
      (Identifier.output j.owner.text)) ↔ _
  rw [mem_undeclared, List.mem_append, or_left_comm, ← List.mem_append]
  -- What is left are the variables of the chips and those of the boundary.
  change _ ∨ v ∈ portVariables j.owner j.type ↔ _
  unfold chipPins
  rw [List.mem_flatMap, mem_portVariables]
  constructor
  · rintro (⟨c, hc, hv⟩ | ⟨output, port, hport, hv⟩)
    · obtain ⟨output, port, hport, hv⟩ := mem_portVariables.1 hv
      exact ⟨⟨c.id, output, port⟩, Or.inr ⟨c, (hwired c).1 hc, rfl, hport⟩, hv⟩
    · exact ⟨⟨j.owner, output, port⟩, Or.inl ⟨rfl, hport⟩, hv⟩
  · rintro ⟨⟨chip, output, port⟩, hport, hv⟩
    rcases hport with ⟨rfl, hport⟩ | ⟨c, hc, rfl, hport⟩
    · exact Or.inr ⟨output, port, hport, hv⟩
    · exact Or.inl ⟨c, (hwired c).2 hc, mem_portVariables.2 ⟨output, port, hport, hv⟩⟩

/-! ## §3. What wires use. -/

/-- The class has a statement for the wire. -/
def Emitted (j : Job) (plan : Plan) (w : Wire) : Prop := ∃ s ∈ slots j plan, w ∈ s.wires j

/-- The wires that are written down are those from an input of the type, or from an output of a
chip, whose target is on the boundary or on a chip. -/
theorem emitted_iff {j : Job} {settings : CompileSettings} {w : Wire} :
    Emitted j (j.type.content.plan j.owner settings) w ↔
      w ∈ j.type.content.wires ∧ Present j w.target ∧
        ((w.source.output = false ∧ w.source.chip = j.owner) ∨
          (w.source.output = true ∧ ∃ c, j.type.content.chip? w.source.chip = some c)) := by
  constructor
  · rintro ⟨s, hs, hw⟩
    obtain ⟨hwire, hdrives, -, htarget⟩ := Slot.mem_wires.1 hw
    refine ⟨hwire, htarget, ?_⟩
    cases s with
    | inputs => exact Or.inl hdrives
    | chip id =>
      obtain ⟨c, hc, hid⟩ := Content.mem_plan_order.1 (chip_mem_slots.1 hs)
      refine Or.inr ⟨hdrives.1, c, ?_⟩
      rw [hdrives.2, ← hid]
      exact hc.1
  · rintro ⟨hwire, htarget, hsource | ⟨houtput, c, hc⟩⟩
    · have hw : w ∈ Slot.inputs.wires j :=
        Slot.mem_wires.2 ⟨hwire, hsource, Or.inl hsource.2, htarget⟩
      refine ⟨.inputs, ?_, hw⟩
      unfold slots
      rw [if_neg (List.ne_nil_of_mem hw)]
      exact List.mem_append_left _ List.mem_cons_self
    · have hw : w ∈ (Slot.chip w.source.chip).wires j :=
        Slot.mem_wires.2 ⟨hwire, ⟨houtput, rfl⟩, Or.inr ⟨c, hc⟩, htarget⟩
      refine ⟨_, chip_mem_slots.2 (Content.mem_plan_order.2 ⟨c, ?_, Content.id_of_chip? hc⟩), hw⟩
      rw [Content.Wired, Content.id_of_chip? hc]
      exact ⟨hc, w, hwire, Or.inl rfl⟩

/-- Both variables of every statement of a wire are declared. -/
def DeclaredWiring (j : Job) (plan : Plan) (e : EmittedType) : Prop :=
  ∀ w, Emitted j plan w →
    Declared e (Identifier.ofPin w.source) ∧ Declared e (Identifier.ofPin w.target)

/-- All that wires use is declared exactly if each end of a wire that is written down has the
variable of some port, which it has if the chip there has the port. -/
theorem declaredWiring_iff [Template.Engine] {j : Job} {settings : CompileSettings} {debug : Bool}
    {e : EmittedType} (h : run j (j.type.content.plan j.owner settings) debug = .ok e) :
    (DeclaredWiring j (j.type.content.plan j.owner settings) e ↔
      ∀ w, Emitted j (j.type.content.plan j.owner settings) w →
        IsPortVariable j (Identifier.ofPin w.source) ∧
          IsPortVariable j (Identifier.ofPin w.target)) ∧
    ((∀ w, Emitted j (j.type.content.plan j.owner settings) w →
        HasPort j w.source ∧ HasPort j w.target) →
      DeclaredWiring j (j.type.content.plan j.owner settings) e) := by
  have hiff : DeclaredWiring j (j.type.content.plan j.owner settings) e ↔
      ∀ w, Emitted j (j.type.content.plan j.owner settings) w →
        IsPortVariable j (Identifier.ofPin w.source) ∧
          IsPortVariable j (Identifier.ofPin w.target) := by
    unfold DeclaredWiring
    simp only [declared_iff h]
  refine ⟨hiff, fun hports => hiff.2 fun w hw => ?_⟩
  obtain ⟨hsource, htarget⟩ := hports w hw
  exact ⟨⟨w.source, hsource, rfl⟩, ⟨w.target, htarget, rfl⟩⟩

/-! ## §4. Relays. -/

/-- What a relay declares, whatever port of `a` drives `b`. -/
theorem relay_declared {port : String} {e : EmittedType}
    (h : run (relay port) (relayPlan port) false = .ok e) {v : String} (hv : Declared e v) :
    v ∈ ["I_top_A", "O_top_R", "I_a_A", "O_a_R", "I_b_A", "O_b_R"] := by
  obtain ⟨⟨chip, output, name⟩, hport, rfl⟩ := (declared_iff h).1 hv
  have hnamed : ∀ name, name ∈ follower.namedPorts output → name = if output then "R" else "A" := by
    intro name hname
    cases output
    · exact List.mem_singleton.1 hname
    · exact List.mem_singleton.1 hname
  rcases hport with ⟨hchip, hname⟩ | ⟨c, hc, hchip, hname⟩
  · obtain rfl : chip = ⟨"top"⟩ := hchip
    obtain rfl := hnamed name hname
    cases output <;> decide
  · obtain rfl : c.id = chip := hchip
    rcases relay_wired hc with rfl | rfl
    · obtain rfl := hnamed name hname
      cases output <;> decide
    · obtain rfl := hnamed name hname
      cases output <;> decide

/-- All that the wires of a relay use is declared when the port exists. -/
theorem declaredWiring_relay : ∃ e, run (relay "R") (relayPlan "R") false = .ok e ∧
    DeclaredWiring (relay "R") (relayPlan "R") e := by
  obtain ⟨e, he⟩ := relay_isOk "R"
  refine ⟨e, he, (declaredWiring_iff he).2 fun w hw => ?_⟩
  have htop : ∀ output, HasPort (relay "R") ⟨⟨"top"⟩, output, if output then "R" else "A"⟩ := by
    intro output
    exact Or.inl ⟨rfl, by cases output <;> decide⟩
  have hchip : ∀ id : Name, id = ⟨"a"⟩ ∨ id = ⟨"b"⟩ → ∀ output,
      HasPort (relay "R") ⟨id, output, if output then "R" else "A"⟩ := by
    intro id hid output
    refine Or.inr ⟨.ofPlace id ⟨"follower"⟩ .zero, ⟨?_, ?_⟩, rfl, ?_⟩
    · rcases hid with rfl | rfl <;> rfl
    · rcases hid with rfl | rfl <;> decide
    · rcases hid with rfl | rfl <;> cases output <;> decide
  have hwires : w ∈ [Wire.between ⟨⟨"b"⟩, true, "R"⟩ ⟨⟨"top"⟩, true, "R"⟩ 0,
      .between ⟨⟨"a"⟩, true, "R"⟩ ⟨⟨"b"⟩, false, "A"⟩ 0,
      .between ⟨⟨"top"⟩, false, "A"⟩ ⟨⟨"a"⟩, false, "A"⟩ 0] := (emitted_iff.1 hw).1
  simp only [List.mem_cons, List.not_mem_nil, or_false] at hwires
  rcases hwires with rfl | rfl | rfl
  · exact ⟨hchip _ (Or.inr rfl) true, htop true⟩
  · exact ⟨hchip _ (Or.inl rfl) true, hchip _ (Or.inr rfl) false⟩
  · exact ⟨htop false, hchip _ (Or.inl rfl) false⟩

/-- A wire from a port that its chip does not have is written down all the same, and what it uses
is not declared. -/
theorem undeclared_relay : ¬ ∀ (j : Job) (settings : CompileSettings) (debug : Bool)
    (e : EmittedType), j.type.canonical = j.type → (∀ t ∈ j.types.values, t.canonical = t) →
    run j (j.type.content.plan j.owner settings) debug = .ok e →
    DeclaredWiring j (j.type.content.plan j.owner settings) e := by
  intro hall
  -- The follower `a` has no port `Q`.
  obtain ⟨e, he⟩ := relay_isOk "Q"
  have hwire : Emitted (relay "Q") (relayPlan "Q")
      (.between ⟨⟨"a"⟩, true, "Q"⟩ ⟨⟨"b"⟩, false, "A"⟩ 0) := by
    refine emitted_iff.2 ⟨by decide, by decide, Or.inr ⟨rfl, ?_⟩⟩
    exact ⟨.ofPlace ⟨"a"⟩ ⟨"follower"⟩ .zero, rfl⟩
  have hdeclared := (hall (relay "Q") {} false e (by decide) (by decide) he _ hwire).1
  exact absurd (relay_declared he hdeclared) (by decide)

end LogicBoard.Emit
