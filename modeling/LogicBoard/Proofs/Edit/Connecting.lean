/-
  LogicBoard.Proofs.Edit.Connecting
  ────────────────────────────────
  **WHICH PINS CAN BE CONNECTED.**

  A pin that exists either drives or is driven: inside a type the outputs of
  the type and the inputs of its chips are driven, and all others drive.  An
  editor decides by comparing the sides and places of the two pins in turn.
  What comes of it is the plain rule: one pin has to drive, the other one has
  to be driven, and no wire may end on the driven one yet.  The rule does not
  say which pin is given first, so neither does it matter to the editor.

  Main statements:
    • `isBoundary?_eq_some_iff` — which pins exist, and where they are,
    • `ends?_eq_some_iff` — which pins become source and target of a wire,
    • `connect_legal` — connecting follows the rule, in either order.
-/
import LogicBoard.Proofs.Edit.Operation

namespace LogicBoard

/-- The ports that are found are those of the side that have a name. -/
theorem ChipType.mem_namedPorts_iff {t : ChipType} {port : String} {output : Bool} :
    port ∈ t.namedPorts output ↔ ∃ i, t.position? port output = some i := by
  unfold position? namedPorts
  rw [List.mem_filter, ← List.isSome_idxOf?, ← Option.isSome_iff_exists]
  split
  · rename_i hempty
    simp [hempty]
  · rename_i hnamed
    simp [hnamed]

namespace Editor

variable {types : TypeLookup} {e : Editor}

/-! ## §1. The rule. -/

/-- The pin exists: it is a named port of the type itself if it is on the boundary, and otherwise
one of a chip that is there. -/
def IsPin (types : TypeLookup) (e : Editor) (p : Pin) : Prop :=
  if p.chip = e.owner then p.port ∈ (types.get e.owner).namedPorts p.output
  else ∃ c, e.content.chip? p.chip = some c ∧ p.port ∈ (types.get c.type).namedPorts p.output

/-- The pin exists and is driven: it is an output of the type itself or an input of a chip. -/
def IsSink (types : TypeLookup) (e : Editor) (p : Pin) : Prop :=
  IsPin types e p ∧ p.output = decide (p.chip = e.owner)

/-- No wire ends on the pin. -/
def IsFree (e : Editor) (p : Pin) : Prop := ∀ w ∈ e.content.wires, w.source ≠ p ∧ w.target ≠ p

/-- Both pins exist, exactly one of them is driven, and no wire ends on that one. -/
structure Connectable (types : TypeLookup) (e : Editor) (a b : Pin) : Prop where
  first : IsPin types e a
  second : IsPin types e b
  oneSink : IsSink types e a ↔ ¬ IsSink types e b
  free : ∀ p, p = a ∨ p = b → IsSink types e p → IsFree e p

/-- The first pin drives, and the second one may be driven by it. -/
structure CanDrive (types : TypeLookup) (e : Editor) (a b : Pin) : Prop where
  source : IsPin types e a
  drives : ¬ IsSink types e a
  sink : IsSink types e b
  free : IsFree e b

/-- Two pins can be connected if one of them may be driven by the other. -/
theorem connectable_iff {a b : Pin} :
    Connectable types e a b ↔ CanDrive types e a b ∨ CanDrive types e b a := by
  constructor
  · intro h
    by_cases hb : IsSink types e b
    · exact Or.inl ⟨h.first, fun ha => h.oneSink.1 ha hb, hb, h.free b (Or.inr rfl) hb⟩
    · have ha := h.oneSink.2 hb
      exact Or.inr ⟨h.second, hb, ha, h.free a (Or.inl rfl) ha⟩
  · rintro (h | h)
    · refine ⟨h.source, h.sink.1, ?_, ?_⟩
      · exact ⟨fun ha => absurd ha h.drives, fun hb => absurd h.sink hb⟩
      · rintro p (rfl | rfl) hp
        · exact absurd hp h.drives
        · exact h.free
    · refine ⟨h.sink.1, h.source, ?_, ?_⟩
      · exact ⟨fun _ => h.drives, fun _ => h.sink⟩
      · rintro p (rfl | rfl) hp
        · exact h.free
        · exact absurd hp h.drives

/-! ## §2. What the editor looks at. -/

/-- A pin is found if it exists, and it is told whether it is on the boundary. -/
theorem isBoundary?_eq_some_iff {p : Pin} {boundary : Bool} :
    e.isBoundary? types p = some boundary ↔
      IsPin types e p ∧ boundary = decide (p.chip = e.owner) := by
  unfold isBoundary? IsPin
  rw [Option.map_eq_some_iff]
  unfold Board.place?
  show (∃ a, (if p.chip = e.owner then _ else _) = some a ∧ _) ↔ _
  by_cases howner : p.chip = e.owner
  · simp only [howner, if_true, ChipType.mem_namedPorts_iff, decide_true]
    constructor
    · rintro ⟨placement, hplace, rfl⟩
      obtain ⟨i, hi, rfl⟩ := Option.map_eq_some_iff.1 hplace
      exact ⟨⟨i, hi⟩, rfl⟩
    · rintro ⟨⟨i, hi⟩, rfl⟩
      exact ⟨_, Option.map_eq_some_iff.2 ⟨i, hi, rfl⟩, rfl⟩
  · simp only [howner, if_false, ChipType.mem_namedPorts_iff, decide_false,
      Option.bind_eq_bind, Option.bind_eq_some_iff, pure, Option.some.injEq]
    constructor
    · rintro ⟨placement, ⟨c, hc, i, hi, rfl⟩, rfl⟩
      exact ⟨⟨c, hc, i, hi⟩, rfl⟩
    · rintro ⟨⟨c, hc, i, hi⟩, rfl⟩
      exact ⟨_, ⟨c, hc, i, hi, rfl⟩, rfl⟩

/-- A pin is free if it is not connected. -/
theorem isConnected_eq_false_iff {p : Pin} : e.isConnected p = false ↔ IsFree e p := by
  unfold isConnected IsFree Wire.usesPin
  simp

/-- Only a pin that is driven can be driven already. -/
theorem isDriven_eq_false_iff {p : Pin} (hp : IsPin types e p) :
    e.isDriven p (decide (p.chip = e.owner)) = false ↔ (IsSink types e p → IsFree e p) := by
  unfold isDriven IsSink
  rw [Bool.and_eq_false_iff, isConnected_eq_false_iff, decide_eq_false_iff_not]
  constructor
  · rintro (hfree | hside) hsink
    · exact hfree
    · exact absurd hsink.2 hside
  · intro h
    by_cases hside : p.output = decide (p.chip = e.owner)
    · exact Or.inl (h ⟨hp, hside⟩)
    · exact Or.inr hside

/-- A pin that exists either drives or is driven, depending on its side and on where it is. -/
theorem isSink_iff {p : Pin} (hp : IsPin types e p) :
    IsSink types e p ↔ p.output = (false ^^ decide (p.chip = e.owner)) := by
  rw [Bool.false_xor]
  exact and_iff_right hp

theorem not_isSink_iff {p : Pin} (hp : IsPin types e p) :
    ¬ IsSink types e p ↔ p.output = (true ^^ decide (p.chip = e.owner)) := by
  rw [isSink_iff hp, Bool.false_xor, Bool.true_xor, Bool.eq_not]

/-- Neither pin is driven already. -/
theorem CanDrive.not_isDriven {a b : Pin} (h : CanDrive types e a b) :
    e.isDriven a (decide (a.chip = e.owner)) = false ∧
      e.isDriven b (decide (b.chip = e.owner)) = false :=
  ⟨(isDriven_eq_false_iff h.source).2 fun ha => absurd ha h.drives,
    (isDriven_eq_false_iff h.sink.1).2 fun _ => h.free⟩

/-- Pins are connected the way round in which one of them drives and the other one is driven. -/
theorem oriented?_eq_some_iff {a b source target : Pin} {x y : Bool} :
    oriented? a x b y = some (source, target) ↔
      (source = a ∧ target = b ∧ a.output = (true ^^ x) ∧ b.output = (false ^^ y)) ∨
        (source = b ∧ target = a ∧ b.output = (true ^^ y) ∧ a.output = (false ^^ x)) := by
  obtain ⟨ca, oa, pa⟩ := a
  obtain ⟨cb, ob, pb⟩ := b
  unfold oriented?
  -- Two sides and two places make sixteen cases, eight of which are refused.
  cases oa <;> cases x <;> cases ob <;> cases y <;> simp [eq_comm]

/-- The pins that become source and target of a wire are those of which the first one may drive
the second one. -/
theorem ends?_eq_some_iff {a b source target : Pin} :
    e.ends? types a b = some (source, target) ↔ CanDrive types e source target ∧
      (source = a ∧ target = b ∨ source = b ∧ target = a) := by
  unfold ends?
  simp only [Option.bind_eq_bind, Option.bind_eq_some_iff, isBoundary?_eq_some_iff]
  constructor
  · rintro ⟨_, ⟨ha, rfl⟩, _, ⟨hb, rfl⟩, h⟩
    split at h
    · exact absurd h (by simp)
    · rename_i hdriven
      -- Only of the pin that becomes the target is it known that it is free.
      rw [Bool.not_eq_true, Bool.or_eq_false_iff, isDriven_eq_false_iff ha,
        isDriven_eq_false_iff hb] at hdriven
      rcases oriented?_eq_some_iff.1 h with ⟨rfl, rfl, hsource, hsink⟩ | ⟨rfl, rfl, hsource, hsink⟩
      · rw [← not_isSink_iff ha] at hsource
        rw [← isSink_iff hb] at hsink
        exact ⟨⟨ha, hsource, hsink, hdriven.2 hsink⟩, Or.inl ⟨rfl, rfl⟩⟩
      · rw [← not_isSink_iff hb] at hsource
        rw [← isSink_iff ha] at hsink
        exact ⟨⟨hb, hsource, hsink, hdriven.1 hsink⟩, Or.inr ⟨rfl, rfl⟩⟩
  · rintro ⟨h, horder⟩
    obtain ⟨hsource, hsink⟩ := h.not_isDriven
    have hdrives := (not_isSink_iff h.source).1 h.drives
    have hdriven := (isSink_iff h.sink.1).1 h.sink
    rcases horder with ⟨rfl, rfl⟩ | ⟨rfl, rfl⟩
    · refine ⟨_, ⟨h.source, rfl⟩, _, ⟨h.sink.1, rfl⟩, ?_⟩
      rw [hsource, hsink]
      exact oriented?_eq_some_iff.2 (Or.inl ⟨rfl, rfl, hdrives, hdriven⟩)
    · refine ⟨_, ⟨h.sink.1, rfl⟩, _, ⟨h.source, rfl⟩, ?_⟩
      rw [hsource, hsink]
      exact oriented?_eq_some_iff.2 (Or.inr ⟨rfl, rfl, hdrives, hdriven⟩)

/-- It does not matter which pin is given first. -/
theorem ends?_comm (types : TypeLookup) (e : Editor) (a b : Pin) :
    e.ends? types a b = e.ends? types b a := by
  refine Option.ext fun pins => ?_
  rw [ends?_eq_some_iff, ends?_eq_some_iff, or_comm]

/-! ## §3. Connecting. -/

theorem connect_comm (types : TypeLookup) (e : Editor) (a b : Pin) (layer : Int) :
    e.connect types a b layer = e.connect types b a layer := by
  unfold connect
  rw [ends?_comm]

/-- Pins are refused if neither may drive the other one. -/
theorem ends?_eq_none_iff {a b : Pin} :
    e.ends? types a b = none ↔ ¬ Connectable types e a b := by
  rw [connectable_iff, Option.eq_none_iff_forall_ne_some]
  constructor
  · rintro h (hab | hba)
    · exact h (a, b) (ends?_eq_some_iff.2 ⟨hab, Or.inl ⟨rfl, rfl⟩⟩)
    · exact h (b, a) (ends?_eq_some_iff.2 ⟨hba, Or.inr ⟨rfl, rfl⟩⟩)
  · rintro h ⟨source, target⟩ hends
    obtain ⟨hcan, ⟨rfl, rfl⟩ | ⟨rfl, rfl⟩⟩ := ends?_eq_some_iff.1 hends
    · exact h (Or.inl hcan)
    · exact h (Or.inr hcan)

/-- The editor after a wire was put behind the others. -/
structure Gains (types : TypeLookup) (e e' : Editor) (a b : Pin) (layer : Int) (w : Wire) :
    Prop where
  /-- Nothing else changes. -/
  content : e' = e.withWires (e.content.wires ++ [w])
  layer : w.layer = layer
  /-- The wire runs from the pin that drives to the one that is driven. -/
  drives : CanDrive types e w.source w.target
  ends : w.source = a ∧ w.target = b ∨ w.source = b ∧ w.target = a

/-- On a board with edges, two pins are connected exactly if the rule allows it, in whatever order
they are given: one wire is put behind the others, or nothing changes. -/
theorem connect_legal (hheight : 0 ≤ e.gridSize.y) (a b : Pin) (layer : Int) :
    ∃ r, e.connect types a b layer = .ok r ∧ e.connect types b a layer = .ok r ∧
      (r.isSome = true ↔ Connectable types e a b) ∧
      (r = none → e.apply types (.connect a b layer) = .ok e) ∧
      ∀ e', r = some e' → e.apply types (.connect a b layer) = .ok e' ∧
        ∃ w, Gains types e e' a b layer w := by
  rw [connect_comm types e b a]
  cases hends : e.ends? types a b with
  | none =>
    have hnone : e.connect types a b layer = .ok none := by
      unfold connect
      rw [hends]
    refine ⟨none, hnone, hnone, ?_, fun _ => ?_, fun e' h => absurd h (by simp)⟩
    · simpa using ends?_eq_none_iff.1 hends
    · show (e.connect types a b layer).map (·.getD e) = _
      rw [hnone]
      rfl
  | some pins =>
    obtain ⟨source, target⟩ := pins
    obtain ⟨hcan, horder⟩ := ends?_eq_some_iff.1 hends
    have hsome : e.connect types a b layer
        = .ok (some (e.withWires (e.content.wires ++ [e.wired types source target layer]))) := by
      unfold connect
      rw [hends]
      dsimp only
      rw [Board.route_eq (b := e.board types) hheight]
      rfl
    refine ⟨_, hsome, hsome, ?_, fun h => absurd h (by simp), ?_⟩
    · refine ⟨fun _ => ?_, fun _ => rfl⟩
      by_contra hnot
      rw [ends?_eq_none_iff.2 hnot] at hends
      exact absurd hends (by simp)
    · rintro e' h
      obtain rfl := Option.some.inj h
      refine ⟨?_, _, rfl, rfl, hcan, horder⟩
      show (e.connect types a b layer).map (·.getD e) = _
      rw [hsome]
      rfl

/-- A buffer whose input is driven by the type around it. -/
def bufferEditor : Editor :=
  ⟨⟨"top"⟩,
    .ofChips ⟨2, 2⟩ [.ofPlace ⟨"b"⟩ ⟨"buffer"⟩ .zero]
      [.between ⟨⟨"top"⟩, false, "A"⟩ ⟨⟨"b"⟩, false, "A"⟩ 0],
    ⟨1, 10, 9⟩⟩

/-- Both pins are outputs, and the one that is given first is driven. -/
theorem connect_buffer : 0 ≤ bufferEditor.gridSize.y ∧ ∃ e',
    bufferEditor.connect bufferTypes ⟨⟨"top"⟩, true, "R"⟩ ⟨⟨"b"⟩, true, "R"⟩ 0 = .ok (some e') ∧
    bufferEditor.connect bufferTypes ⟨⟨"b"⟩, true, "R"⟩ ⟨⟨"top"⟩, true, "R"⟩ 0 = .ok (some e') ∧
    Connectable bufferTypes bufferEditor ⟨⟨"top"⟩, true, "R"⟩ ⟨⟨"b"⟩, true, "R"⟩ ∧
    ∃ w, Gains bufferTypes bufferEditor e' ⟨⟨"top"⟩, true, "R"⟩ ⟨⟨"b"⟩, true, "R"⟩ 0 w := by
  have hheight : 0 ≤ bufferEditor.gridSize.y := by decide
  obtain ⟨r, hr, hr', hlegal, -, hgains⟩ :=
    @connect_legal bufferTypes _ hheight ⟨⟨"top"⟩, true, "R"⟩ ⟨⟨"b"⟩, true, "R"⟩ 0
  have hsome : (bufferEditor.connect bufferTypes ⟨⟨"top"⟩, true, "R"⟩ ⟨⟨"b"⟩, true, "R"⟩ 0).map
      (·.isSome) = .ok true := by cbv
  rw [hr] at hsome
  obtain ⟨e', rfl⟩ := Option.isSome_iff_exists.1 (Except.ok.inj hsome)
  exact ⟨hheight, e', hr, hr', hlegal.1 rfl, (hgains e' rfl).2⟩

end Editor

end LogicBoard
