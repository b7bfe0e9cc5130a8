/-
  LogicBoard.Proofs.Compile.Blocks
  ────────────────────────────────
  **WHERE THE STATEMENTS OF WIRES STAND.**

  A class has a block for the inputs of its type, if they drive anything,
  and then one for each wired chip, in the order of the plan.  The statement
  of a wire stands at the end of the block of what drives it, so that without
  loops a chip runs after all that is written to its inputs.

  Main statements:
    • `inputWires_eq`, `wiresFrom_eq` — the statements of a slot, as they are found,
    • `slot_before_target` — without loops, a value is there when it is used,
    • `isSchedule_of_run` — the blocks of a class.
-/
import Mathlib
import LogicBoard.Proofs.Compile.Emission
import LogicBoard.Proofs.Compile.Identifiers

namespace LogicBoard.Emit

/-! ## §1. Slots. -/

/-- The pin is on the boundary of the type or on a chip that exists. -/
def Present (j : Job) (p : Pin) : Prop :=
  p.chip = j.owner ∨ ∃ c, j.type.content.chip? p.chip = some c

theorem hasEnd_iff {j : Job} {p : Pin} : hasEnd j p = true ↔ Present j p := by
  unfold hasEnd Present
  rw [Bool.or_eq_true, decide_eq_true_iff, Content.contains_iff_chip?]

instance (j : Job) (p : Pin) : Decidable (Present j p) :=
  decidable_of_iff (hasEnd j p = true) hasEnd_iff

/-- What the blocks of a class are for. -/
inductive Slot where
  /-- The inputs of the type. -/
  | inputs
  /-- One of its chips. -/
  | chip (id : Name)
deriving DecidableEq

/-- The pins that get their values at a slot: inputs of the type, or outputs of the chip. -/
def Slot.Drives (j : Job) : Slot → Pin → Prop
  | .inputs, p => p.output = false ∧ p.chip = j.owner
  | .chip id, p => p.output = true ∧ p.chip = id

instance (j : Job) (s : Slot) (p : Pin) : Decidable (s.Drives j p) :=
  match s with
  | .inputs => inferInstanceAs (Decidable (_ ∧ _))
  | .chip _ => inferInstanceAs (Decidable (_ ∧ _))

/-- The wires whose statements belong to a slot, in the order they were made. -/
def Slot.wires (j : Job) (s : Slot) : List Wire :=
  j.type.content.wires.filter fun w =>
    s.Drives j w.source ∧ Present j w.source ∧ Present j w.target

/-- The statements of a slot: `target = source;` for each of its wires. -/
def Slot.statements (j : Job) (s : Slot) : List String :=
  (s.wires j).map Identifier.copyStatement

theorem Slot.mem_wires {j : Job} {s : Slot} {w : Wire} :
    w ∈ s.wires j ↔ w ∈ j.type.content.wires ∧
      s.Drives j w.source ∧ Present j w.source ∧ Present j w.target := by
  unfold Slot.wires
  rw [List.mem_filter, decide_eq_true_iff]

/-- The statements before the first chip are those of the inputs. -/
theorem inputWires_eq (j : Job) : inputWires j = Slot.inputs.statements j := by
  have hfilter : (j.type.content.wires.filter fun w =>
      !w.source.output && w.source.chip = j.owner && hasEnds j w) = Slot.inputs.wires j := by
    refine List.filter_congr fun w _ => ?_
    rw [Bool.eq_iff_iff, decide_eq_true_iff]
    simp only [hasEnds, Bool.and_eq_true, Bool.not_eq_true', decide_eq_true_iff, hasEnd_iff,
      Slot.Drives]
  unfold inputWires Slot.statements
  rw [hfilter, Identifier.wireStatement_eq_copy]

/-- The statements after the body of a chip are those of its outputs. -/
theorem wiresFrom_eq (j : Job) (id : Name) : wiresFrom j id = (Slot.chip id).statements j := by
  have hfilter : (j.type.content.wiresFrom id).filter (hasEnds j) = (Slot.chip id).wires j := by
    unfold Content.wiresFrom Slot.wires
    rw [List.filter_filter]
    refine List.filter_congr fun w _ => ?_
    rw [Bool.eq_iff_iff, decide_eq_true_iff]
    simp only [hasEnds, Bool.and_eq_true, decide_eq_true_iff, hasEnd_iff, Slot.Drives]
    exact and_comm
  unfold wiresFrom Slot.statements
  rw [hfilter, Identifier.wireStatement_eq_copy]

/-! ## §2. Blocks. -/

/-- What the block of a slot says. -/
inductive IsBlock [Template.Engine] (j : Job) : Slot → CodeBlock → Prop where
  | inputs {b : CodeBlock} (id : b.id = j.owner.text)
      (lines : b.lines = Slot.inputs.statements j) : IsBlock j .inputs b
  | chip {c : Chip} {b : CodeBlock} {body : List String}
      (found : j.type.content.chip? c.id = some c) (isBody : IsBody j c body)
      (id : b.id = c.id.text) (type : b.type = c.type.text)
      (lines : b.lines = body ++ (Slot.chip c.id).statements j) : IsBlock j (.chip c.id) b

/-- The slots of a class: one for the inputs if they drive anything, and one for each chip of the
plan. -/
def slots (j : Job) (plan : Plan) : List Slot :=
  (if Slot.inputs.wires j = [] then [] else [.inputs]) ++ plan.order.map .chip

theorem chip_mem_slots {j : Job} {plan : Plan} {id : Name} :
    .chip id ∈ slots j plan ↔ id ∈ plan.order := by
  unfold slots
  rw [List.mem_append, List.mem_map]
  constructor
  · rintro (h | ⟨id', h, hid⟩)
    · split at h <;> simp at h
    · obtain rfl := Slot.chip.inj hid
      exact h
  · intro h
    exact Or.inr ⟨id, h, rfl⟩

/-- The block before those of the chips. -/
theorem isBlock_preamble [Template.Engine] (j : Job) :
    List.Forall₂ (IsBlock j) (if Slot.inputs.wires j = [] then [] else [.inputs]) (preamble j) := by
  unfold preamble
  rw [inputWires_eq]
  -- The block is left out exactly if it would have no lines.
  by_cases h : Slot.inputs.wires j = []
  · have hempty : Slot.inputs.statements j = [] := by
      unfold Slot.statements
      rw [h, List.map_nil]
    simp [h, hempty]
  · have hempty : ¬ Slot.inputs.statements j = [] := by
      unfold Slot.statements
      rwa [List.map_eq_nil_iff]
    simp only [h, if_false, List.isEmpty_iff, hempty]
    exact .cons (.inputs rfl rfl) .nil

/-- The blocks of the chips. -/
theorem isBlock_pieces [Template.Engine] {j : Job} {order : List Name} {chips : List Chip}
    {pieces : List Piece} (hchips : List.Forall₂ (fun id c => plannedChip j id = .ok c) order chips)
    (hpieces : List.Forall₂ (fun c p => piece j c = .ok p) chips pieces) :
    List.Forall₂ (IsBlock j) (order.map .chip) (pieces.map (·.block)) := by
  -- Chips and pieces are gone through together, one slot for each pair.
  induction hchips generalizing pieces with
  | nil =>
    cases hpieces
    exact .nil
  | @cons id c order chips hc _ ih =>
    cases hpieces with
    | @cons _ p _ pieces hp hrest =>
      have hfound := plannedChip_ok_iff.1 hc
      obtain rfl := Content.id_of_chip? hfound
      obtain ⟨body, hbody, hid, htype, hlines⟩ := piece_ok hp
      rw [wiresFrom_eq] at hlines
      exact .cons (.chip hfound hbody hid htype hlines) (ih hrest)

/-! ## §3. Drivers before the driven. -/

/-- A chip has its slot after that of the inputs, at its place in the plan. -/
theorem idxOf_chip (j : Job) (plan : Plan) (id : Name) :
    (slots j plan).idxOf (.chip id)
      = (if Slot.inputs.wires j = [] then 0 else 1) + plan.order.idxOf id := by
  -- Different chips have different slots.
  have hmap : ∀ order : List Name, (order.map Slot.chip).idxOf (.chip id) = order.idxOf id := by
    intro order
    induction order with
    | nil => rfl
    | cons a rest ih => simp only [List.map_cons, List.idxOf_cons, ih, beq_eq_decide, Slot.chip.injEq]
  unfold slots
  split
  · rw [List.nil_append, hmap, Nat.zero_add]
  · rw [List.singleton_append, List.idxOf_cons_ne _ (by simp), hmap, Nat.add_comm]

/-- Without loops, the statement of a wire to a chip stands before the block of the chip. -/
theorem slot_before_target {j : Job} {settings : CompileSettings}
    (h : (j.type.content.plan j.owner settings).loops = []) {s : Slot}
    (hs : s ∈ slots j (j.type.content.plan j.owner settings)) {w : Wire} (hw : w ∈ s.wires j)
    (htarget : ∃ c, j.type.content.chip? w.target.chip = some c) :
    .chip w.target.chip ∈ slots j (j.type.content.plan j.owner settings) ∧
      (slots j (j.type.content.plan j.owner settings)).idxOf s
        < (slots j (j.type.content.plan j.owner settings)).idxOf (.chip w.target.chip) := by
  obtain ⟨hwire, hdrives, -, -⟩ := Slot.mem_wires.1 hw
  obtain ⟨c, hc⟩ := htarget
  constructor
  · -- The wire ends on the target, so the target is wired.
    refine chip_mem_slots.2 (Content.mem_plan_order.2 ⟨c, ?_, Content.id_of_chip? hc⟩)
    rw [Content.Wired, Content.id_of_chip? hc]
    exact ⟨hc, w, hwire, Or.inr rfl⟩
  · rw [idxOf_chip]
    cases s with
    | inputs =>
      -- The slot of the inputs is the first one, and it is there as it has the wire.
      have hne : ¬ Slot.inputs.wires j = [] := List.ne_nil_of_mem hw
      unfold slots
      rw [if_neg hne, if_neg hne, List.singleton_append, List.idxOf_cons_self]
      omega
    | chip id =>
      -- The wire is an edge between two chips, and the plan follows the edges.
      obtain ⟨d, hd, hid⟩ := Content.mem_plan_order.1 (chip_mem_slots.1 hs)
      obtain ⟨-, hsource⟩ := hdrives
      have hlt := Content.plan_idxOf_lt h hwire
        (Content.contains_iff_chip?.2 ⟨d, by rw [hsource, ← hid]; exact hd.1⟩)
        (Content.contains_iff_chip?.2 ⟨c, hc⟩)
      rw [hsource] at hlt
      rw [idxOf_chip]
      omega

/-- What the blocks of a class are to be. -/
structure IsSchedule [Template.Engine] (j : Job) (plan : Plan) (blocks : List CodeBlock) :
    Prop where
  /-- Each slot has its block. -/
  blocks : List.Forall₂ (IsBlock j) (slots j plan) blocks
  order_nodup : plan.order.Nodup
  mem_order : ∀ id, id ∈ plan.order ↔ ∃ c, j.type.content.Wired c ∧ c.id = id
  /-- Without loops, a value is there when it is used. -/
  before : plan.loops = [] → ∀ s ∈ slots j plan, ∀ w ∈ s.wires j,
    (∃ c, j.type.content.chip? w.target.chip = some c) →
      .chip w.target.chip ∈ slots j plan ∧
        (slots j plan).idxOf s < (slots j plan).idxOf (.chip w.target.chip)

/-- A type with one input and one output. -/
def follower : ChipType := { ChipType.skeleton with inputs := ["A", ""] }

/-- Two followers `b` and `a` inside `top`: a port of `a` drives `b`, which drives the output, and
the input drives `a`.  The wires were made in this order. -/
def relay (port : String) : Job where
  owner := ⟨"top"⟩
  type := { follower with
    content := .ofChips .one
      [.ofPlace ⟨"b"⟩ ⟨"follower"⟩ .zero, .ofPlace ⟨"a"⟩ ⟨"follower"⟩ .zero]
      [.between ⟨⟨"b"⟩, true, "R"⟩ ⟨⟨"top"⟩, true, "R"⟩ 0,
       .between ⟨⟨"a"⟩, true, port⟩ ⟨⟨"b"⟩, false, "A"⟩ 0,
       .between ⟨⟨"top"⟩, false, "A"⟩ ⟨⟨"a"⟩, false, "A"⟩ 0] }
  types := .ofList [(⟨"follower"⟩, follower)]

/-- The plan of a relay. -/
def relayPlan (port : String) : Plan := (relay port).type.content.plan (relay port).owner {}

theorem relay_wired {port : String} {c : Chip} (h : (relay port).type.content.Wired c) :
    c = .ofPlace ⟨"a"⟩ ⟨"follower"⟩ .zero ∨ c = .ofPlace ⟨"b"⟩ ⟨"follower"⟩ .zero := by
  have hvalues : (relay port).type.content.chips.values
      = [.ofPlace ⟨"a"⟩ ⟨"follower"⟩ .zero, .ofPlace ⟨"b"⟩ ⟨"follower"⟩ .zero] := by rfl
  have hmem := (Content.chip?_eq_some_iff.1 h.1).1
  rw [hvalues] at hmem
  simpa only [List.mem_cons, List.not_mem_nil, or_false] using hmem

/-- The class of a relay is made, whatever the port. -/
theorem relay_isOk (port : String) : ∃ e, run (relay port) (relayPlan port) false = .ok e := by
  refine run_isOk_iff.2 fun c hc => ⟨callLines c follower, .call ?_ rfl⟩
  have htype : c.type = ⟨"follower"⟩ := by
    rcases relay_wired hc with rfl | rfl <;> rfl
  rw [htype]
  rfl

end LogicBoard.Emit
