/-
  LogicBoard.Proofs.Record.RoundTrip
  ────────────────────────────────
  **RECORDS ARE READ BACK.**

  A record has every field once, so each field is found again.  The values of
  a design read as themselves as long as they are *legible*: coordinates and
  layers are numbers of 32 bits, and names are folded.  Constants may be any
  machine numbers and texts.  Only doubles among them may have become other
  ones when a record is read; a definition without them, and with one size
  for its type and its content, is *recordable* and is read as itself.

  Main statements:
    • `content?_ofContent` — a content is read back but for its size,
    • `chipType?_ofChipType` — a definition is read back,
    • `ofRecordText_reread` — what is read from the record of a definition,
    • `ofRecordText_recordText` — a recordable one is read as itself.
-/
import LogicBoard.Proofs.Design.Canonical
import LogicBoard.Proofs.Design.Content
import LogicBoard.Proofs.Fallible
import LogicBoard.Proofs.Json.Documents
import LogicBoard.Proofs.Text.Case
import LogicBoard.Store.Basic

namespace LogicBoard

/-! ## §1. Values that can be recorded. -/

/-- A whole number of 32 bits with sign. -/
def IsInt32 (n : Int) : Prop := -2147483648 ≤ n ∧ n ≤ 2147483647

instance (n : Int) : Decidable (IsInt32 n) := inferInstanceAs (Decidable (_ ∧ _))

/-- Both components are numbers of 32 bits. -/
structure Vec.IsRecordable (v : Vec) : Prop where
  x : IsInt32 v.x
  y : IsInt32 v.y

/-- The name is that of some text. -/
def Name.IsFolded (n : Name) : Prop := ∃ s, Name.ofText s = n

/-- A text, or a whole number of 64 bits with or without sign. -/
def Constant.IsRecordable : Constant → Prop
  | .number (.int n) => -0x8000000000000000 ≤ n ∧ n ≤ 0xFFFFFFFFFFFFFFFF
  | .number (.double _) => False
  | .text _ => True

structure Chip.IsRecordable (c : Chip) : Prop where
  id : c.id.IsFolded
  type : c.type.IsFolded
  pos : c.pos.IsRecordable
  constants : ∀ e ∈ c.constants.entries, e.2.IsRecordable

structure Wire.IsRecordable (w : Wire) : Prop where
  layer : IsInt32 w.layer
  path : ∀ cell ∈ w.path, cell.IsRecordable
  source : w.source.chip.IsFolded
  target : w.target.chip.IsFolded

structure Content.IsRecordable (c : Content) : Prop where
  chips : ∀ chip ∈ c.chips.values, chip.IsRecordable
  wires : ∀ w ∈ c.wires, w.IsRecordable

/-- The record of a definition has one size for the type and its content. -/
structure ChipType.IsRecordable (t : ChipType) : Prop where
  size : t.size.IsRecordable
  content : t.content.IsRecordable
  contentSize : t.content.size = t.size

/-- The names of the chip are folded, and its place is of 32 bits. -/
structure Chip.IsLegible (c : Chip) : Prop where
  id : c.id.IsFolded
  type : c.type.IsFolded
  pos : c.pos.IsRecordable

structure Content.IsLegible (c : Content) : Prop where
  chips : ∀ chip ∈ c.chips.values, chip.IsLegible
  wires : ∀ w ∈ c.wires, w.IsRecordable

/-- A text or a machine number. -/
def Constant.IsStorable : Constant → Prop
  | .number n => n.IsMachine
  | .text _ => True

/-- The definition is made of values that a design can have, of which there are no others: numbers
of 32 bits, folded names, and constants that are texts or machine numbers. -/
structure ChipType.IsStorable (t : ChipType) : Prop where
  size : t.size.IsRecordable
  content : t.content.IsLegible
  constants : ∀ chip ∈ t.content.chips.values, ∀ e ∈ chip.constants.entries, e.2.IsStorable

theorem Constant.IsRecordable.isStorable {c : Constant} (h : c.IsRecordable) : c.IsStorable := by
  cases c with
  | text s => trivial
  | number n =>
    cases n with
    | int n => exact h
    | double x => exact h.elim

theorem Chip.IsRecordable.isLegible {c : Chip} (h : c.IsRecordable) : c.IsLegible :=
  ⟨h.id, h.type, h.pos⟩

theorem Content.IsRecordable.isLegible {c : Content} (h : c.IsRecordable) : c.IsLegible where
  chips := fun chip hchip => (h.chips chip hchip).isLegible
  wires := h.wires

theorem ChipType.IsRecordable.isStorable {t : ChipType} (h : t.IsRecordable) : t.IsStorable where
  size := h.size
  content := h.content.isLegible
  constants := fun chip hchip e he => ((h.content.chips chip hchip).constants e he).isStorable

/-- A canonical definition fits into numbers of 32 bits, so only its content matters. -/
theorem ChipType.IsCanonical.isRecordable {t : ChipType} (h : t.IsCanonical)
    (hcontent : t.content.IsRecordable) : t.IsRecordable := by
  obtain ⟨hwidth, hheight⟩ := And.intro h.width h.height
  have hsize : t.size.IsRecordable := by
    constructor
    · unfold IsInt32
      omega
    · unfold IsInt32
      omega
  exact ⟨hsize, hcontent, h.contentSize⟩

/-- Folding a name again changes nothing. -/
theorem Name.IsFolded.ofText_text {n : Name} (h : n.IsFolded) : Name.ofText n.text = n := by
  obtain ⟨s, rfl⟩ := h
  exact congrArg Name.mk (Text.lower_lower s)

namespace Record

/-! ## §2. Reading fields and lists. -/

/-- What the function makes of a document tells the same to a reader: it keeps all but arrays and
objects, items stay in order, and every member of an object is found under its key. -/
structure KeepsMembers (f : Json → Json) : Prop where
  scalar : ∀ j : Json, j.array? = none → j.object? = none → f j = j
  array : ∀ items, f (.array items) = .array (items.map f)
  fields : ∀ names entries, (entries.map (·.1)).Nodup →
    fields? names (f (.object entries)) = some fun name => (entries.lookup name).map f
  /-- Members that are sorted by their keys stay in order. -/
  rising : ∀ entries, entries.Pairwise (fun a b => a.1 < b.1) →
    f (.object entries) = .object (entries.map fun e => (e.1, f e.2))

theorem fields?_object {names : List String} {entries : List (String × Json)}
    (h : (entries.map (·.1)).Nodup) :
    fields? names (.object entries) = some fun name => entries.lookup name := by
  have honce : fieldsOnce names (entries.map (·.1)) = true :=
    List.all_eq_true.2 fun name _ => decide_eq_true (List.nodup_iff_count_le_one.1 h name)
  unfold fields?
  exact if_pos honce

/-- Documents as they are. -/
theorem keepsMembers_id : KeepsMembers id where
  scalar := fun _ _ _ => rfl
  array := fun items => by rw [List.map_id]; rfl
  fields := fun names entries h => by simpa using fields?_object h
  rising := fun entries _ => by simp

section

variable {f : Json → Json} (hf : KeepsMembers f)

include hf

theorem KeepsMembers.string (s : String) : f (.string s) = .string s := hf.scalar _ rfl rfl

theorem KeepsMembers.bool (b : Bool) : f (.bool b) = .bool b := hf.scalar _ rfl rfl

theorem KeepsMembers.int (n : Int) : f (.int n) = .int n := hf.scalar _ rfl rfl

theorem list?_array {α : Type} {read? : Json → Option α} {write : α → Json} {l : List α}
    (h : ∀ a ∈ l, read? (f (write a)) = some a) :
    list? read? (f (.array (l.map write))) = some l := by
  rw [hf.array, List.map_map]
  exact Fallible.mapM_map h

theorem list?_ofTexts (l : List String) : list? Json.string? (f (ofTexts l)) = some l :=
  list?_array hf fun s _ => by rw [hf.string]; rfl

omit hf

theorem int32?_int {n : Int} (h : IsInt32 n) : int32? (.int n) = some n := by
  unfold int32?
  show Option.filter _ (some n) = some n
  simp [Option.filter, h.1, h.2]

theorem name?_text {n : Name} (h : n.IsFolded) : name? (.string n.text) = some n :=
  congrArg some h.ofText_text

theorem rotation?_turns (r : Rotation) : rotation? (.int r.turns) = some r := by
  cases r <;> rfl

/-! ## §3. Parts of a design. -/

include hf

theorem vec?_ofVec {v : Vec} (h : v.IsRecordable) : vec? (f (ofVec v)) = some v := by
  unfold vec? ofVec
  rw [hf.fields _ _ (by simp)]
  show (do return ⟨← int32? (f (.int v.x)), ← int32? (f (.int v.y))⟩ : Option Vec) = some v
  rw [hf.int, hf.int, int32?_int h.x, int32?_int h.y]
  rfl

theorem constant?_ofConstant (c : Constant) : constant? (f (ofConstant c)) = some c := by
  cases c with
  | number n => exact congrArg constant? (hf.scalar (.number n) rfl rfl)
  | text s => exact congrArg constant? (hf.string s)

/-- Constants are sorted by their names. -/
theorem table?_ofConstants (t : Table String Constant) :
    table? constant? (f (ofConstants t)) = some t := by
  have hrising : (t.entries.map fun e => (e.1, ofConstant e.2)).Pairwise fun a b => a.1 < b.1 := by
    rw [List.pairwise_map]
    exact t.rising
  unfold table? ofConstants
  rw [hf.rising _ hrising, List.map_map]
  dsimp only
  rw [Fallible.mapM_map fun e _ => by
    show (constant? (f (ofConstant e.2))).map (fun a => (e.1, a)) = some e
    rw [constant?_ofConstant hf]
    rfl]
  exact congrArg some (Table.ofList_entries t)

theorem pin?_ofPin {p : Pin} (h : p.chip.IsFolded) : pin? (f (ofPin p)) = some p := by
  unfold pin? ofPin
  rw [hf.fields _ _ (by simp)]
  show (do
    let chip ← name? (f (.string p.chip.text))
    let output ← Json.bool? (f (.bool p.output))
    let port ← Json.string? (f (.string p.port))
    return ⟨chip, output, port⟩ : Option Pin) = some p
  simp only [hf.string, hf.bool, name?_text h]
  rfl

theorem wire?_ofWire {w : Wire} (h : w.IsRecordable) : wire? (f (ofWire w)) = some w := by
  unfold wire? ofWire
  rw [hf.fields _ _ (by simp)]
  show (do
    let layer ← int32? (f (.int w.layer))
    let path ← list? vec? (f (.array (w.path.map ofVec)))
    let source ← pin? (f (ofPin w.source))
    let target ← pin? (f (ofPin w.target))
    let drawn ← Json.bool? (f (.bool w.drawn))
    let valid ← Json.bool? (f (.bool w.valid))
    return ⟨layer, path, source, target, drawn, valid⟩ : Option Wire) = some w
  rw [hf.int, hf.bool, hf.bool, int32?_int h.layer,
    list?_array hf fun v hv => vec?_ofVec hf (h.path v hv), pin?_ofPin hf h.source,
    pin?_ofPin hf h.target]
  rfl

theorem chip?_ofChip {c : Chip} (h : c.IsLegible) : chip? (f (ofChip c)) = some c := by
  unfold chip? ofChip
  rw [hf.fields _ _ (by simp)]
  show (do
    let id ← name? (f (.string c.id.text))
    let label ← Json.string? (f (.string c.label))
    let type ← name? (f (.string c.type.text))
    let pos ← vec? (f (ofVec c.pos))
    let constants ← table? constant? (f (ofConstants c.constants))
    let rotation ← rotation? (f (.int c.rotation.turns))
    return ⟨id, label, type, pos, constants, rotation⟩ : Option Chip) = some c
  simp only [hf.string, hf.int]
  rw [name?_text h.id, name?_text h.type, vec?_ofVec hf h.pos, table?_ofConstants hf,
    rotation?_turns]
  rfl

/-- A content is read back but for its size, which it takes from its type. -/
theorem content?_ofContent {c : Content} (h : c.IsLegible) :
    content? (f (ofContent c)) = some { c with size := .one } := by
  unfold content? ofContent
  rw [hf.fields _ _ (by simp)]
  show (do
    let chips ← list? chip? (f (.array (c.chips.values.map ofChip)))
    let wires ← list? wire? (f (.array (c.wires.map ofWire)))
    return .ofChips .one chips wires : Option Content) = some { c with size := .one }
  rw [list?_array hf fun chip hchip => chip?_ofChip hf (h.chips chip hchip),
    list?_array hf fun w hw => wire?_ofWire hf (h.wires w hw)]
  exact congrArg some (c.ofChips_values .one)

theorem textOrNull?_code (code : Option String) :
    textOrNull? (f (code.elim .null .string)) = some code := by
  cases code with
  | none => exact congrArg textOrNull? (hf.scalar .null rfl rfl)
  | some s => exact congrArg textOrNull? (hf.string s)

/-- A definition is read back. -/
theorem chipType?_ofChipType {t : ChipType} (hsize : t.size.IsRecordable)
    (hcontent : t.content.IsLegible) (hsame : t.content.size = t.size) :
    chipType? (f (ofChipType t)) = some t := by
  unfold chipType? ofChipType
  rw [hf.fields _ _ (by simp)]
  show (do
    let size ← vec? (f (ofVec t.size))
    let inputs ← list? Json.string? (f (ofTexts t.inputs))
    let outputs ← list? Json.string? (f (ofTexts t.outputs))
    let kind ← Json.string? (f (.string t.kind))
    let constants ← list? Json.string? (f (ofTexts t.constants))
    let content ← content? (f (ofContent t.content))
    let description ← Json.string? (f (.string t.description))
    let code ← textOrNull? (f (t.code.elim .null .string))
    return ⟨size, inputs, outputs, constants, { content with size }, code, kind, description⟩
      : Option ChipType) = some t
  simp only [hf.string, vec?_ofVec hf hsize, list?_ofTexts hf, content?_ofContent hf hcontent,
    textOrNull?_code hf]
  show some { t with content := { t.content with size := t.size } } = some t
  obtain ⟨size, inputs, outputs, constants, content, code, kind, description⟩ := t
  obtain rfl : content.size = size := hsame
  rfl

end

/-! ## §4. Printable documents. -/

open Json (IsPrintable)

theorem isPrintable_nil : IsPrintable (.object []) := .object (by simp)

/-- An object is printable if its fields are. -/
theorem isPrintable_cons {key : String} {j : Json} {rest : List (String × Json)} :
    IsPrintable (.object ((key, j) :: rest)) ↔ IsPrintable j ∧ IsPrintable (.object rest) := by
  constructor
  · intro h
    cases h with
    | object printable =>
      obtain ⟨hj, hrest⟩ := List.forall_mem_cons.1 printable
      exact ⟨hj, .object hrest⟩
  · intro h
    obtain ⟨hj, hobject⟩ := h
    cases hobject with
    | object hrest => exact .object (List.forall_mem_cons.2 ⟨hj, hrest⟩)

/-- The documents of a list of values. -/
theorem isPrintable_array {α : Type} {write : α → Json} {l : List α}
    (h : ∀ a ∈ l, IsPrintable (write a)) : IsPrintable (.array (l.map write)) :=
  .array (List.forall_mem_map.2 h)

theorem isMachine_int32 {n : Int} (h : IsInt32 n) : (Json.Number.int n).IsMachine := by
  unfold IsInt32 at h
  show -0x8000000000000000 ≤ n ∧ n ≤ 0xFFFFFFFFFFFFFFFF
  omega

theorem isMachine_turns (r : Rotation) : (Json.Number.int r.turns).IsMachine := by
  cases r <;> exact ⟨by decide, by decide⟩

theorem isPrintable_ofVec {v : Vec} (h : v.IsRecordable) : IsPrintable (ofVec v) := by
  simp only [ofVec, isPrintable_cons, isPrintable_nil, and_true]
  exact ⟨.number (isMachine_int32 h.x), .number (isMachine_int32 h.y)⟩

theorem isPrintable_ofTexts (l : List String) : IsPrintable (ofTexts l) :=
  isPrintable_array fun s _ => .string s

theorem isPrintable_ofConstant {c : Constant} (h : c.IsStorable) : IsPrintable (ofConstant c) := by
  cases c with
  | text s => exact .string s
  | number n => exact .number h

theorem isPrintable_ofPin (p : Pin) : IsPrintable (ofPin p) := by
  simp only [ofPin, isPrintable_cons, isPrintable_nil, and_true]
  exact ⟨.string _, .bool _, .string _⟩

theorem isPrintable_ofWire {w : Wire} (h : w.IsRecordable) : IsPrintable (ofWire w) := by
  simp only [ofWire, isPrintable_cons, isPrintable_nil, and_true]
  exact ⟨.number (isMachine_int32 h.layer),
    isPrintable_array fun v hv => isPrintable_ofVec (h.path v hv),
    isPrintable_ofPin _, isPrintable_ofPin _, .bool _, .bool _⟩

theorem isPrintable_ofChip {c : Chip} (h : c.IsLegible)
    (hconstants : ∀ e ∈ c.constants.entries, e.2.IsStorable) : IsPrintable (ofChip c) := by
  have hprintable : IsPrintable (ofConstants c.constants) :=
    .object (List.forall_mem_map.2 fun e he => isPrintable_ofConstant (hconstants e he))
  simp only [ofChip, isPrintable_cons, isPrintable_nil, and_true]
  exact ⟨.string _, .string _, .string _, isPrintable_ofVec h.pos, hprintable,
    .number (isMachine_turns c.rotation)⟩

/-- The record of a definition has machine numbers only. -/
theorem isPrintable_ofChipType {t : ChipType} (h : t.IsStorable) : IsPrintable (ofChipType t) := by
  have hcontent : IsPrintable (ofContent t.content) := by
    simp only [ofContent, isPrintable_cons, isPrintable_nil, and_true]
    exact ⟨isPrintable_array fun chip hchip =>
        isPrintable_ofChip (h.content.chips chip hchip) (h.constants chip hchip),
      isPrintable_array fun w hw => isPrintable_ofWire (h.content.wires w hw)⟩
  have hcode : IsPrintable (t.code.elim .null .string) := by
    cases t.code with
    | none => exact .null
    | some s => exact .string s
  simp only [ofChipType, isPrintable_cons, isPrintable_nil, and_true]
  exact ⟨isPrintable_ofVec h.size, isPrintable_ofTexts _, isPrintable_ofTexts _, .string _,
    isPrintable_ofTexts _, hcontent, .string _, hcode⟩

end Record

/-! ## §5. What is read from a record. -/

/-- The constant that is read when a constant has been written. -/
def Constant.reread : Constant → Constant
  | .number n => .number n.reread
  | .text s => .text s

/-- The chip with its constants as they are read. -/
def Chip.reread (c : Chip) : Chip := { c with constants := c.constants.mapValues Constant.reread }

/-- The content with its chips as they are read. -/
def Content.reread (c : Content) : Content := c.mapChips Chip.reread fun _ => rfl

/-- The definition that is read when a definition has been written. -/
def ChipType.reread (t : ChipType) : ChipType :=
  { t with content := { t.content.reread with size := t.size } }

namespace Record

open Json (reread_array reread_object reread_int)

theorem reread_map {α : Type} {write : α → Json} {f : α → α} {l : List α}
    (h : ∀ a ∈ l, (write a).reread = write (f a)) :
    (Json.array (l.map write)).reread = .array ((l.map f).map write) := by
  rw [reread_array, List.map_map, List.map_map]
  exact congrArg Json.array (List.map_congr_left h)

theorem reread_int32 {n : Int} (h : IsInt32 n) : (Json.int n).reread = .int n :=
  congrArg Json.number (reread_int (isMachine_int32 h))

theorem reread_ofVec {v : Vec} (h : v.IsRecordable) : (ofVec v).reread = ofVec v := by
  unfold ofVec
  simp only [reread_object, List.map_cons, List.map_nil, reread_int32 h.x, reread_int32 h.y]

theorem reread_ofTexts (l : List String) : (ofTexts l).reread = ofTexts l := by
  unfold ofTexts
  rw [reread_map (f := id) fun s _ => rfl, List.map_id]

theorem reread_ofConstants (t : Table String Constant) :
    (ofConstants t).reread = ofConstants (t.mapValues Constant.reread) := by
  unfold ofConstants
  rw [reread_object]
  show _ = Json.object ((t.entries.map fun e => (e.1, e.2.reread)).map _)
  rw [List.map_map, List.map_map]
  refine congrArg Json.object (List.map_congr_left fun e _ => ?_)
  obtain ⟨key, c⟩ := e
  cases c <;> rfl

theorem reread_ofPin (p : Pin) : (ofPin p).reread = ofPin p := by
  unfold ofPin
  rw [reread_object]
  rfl

theorem reread_ofWire {w : Wire} (h : w.IsRecordable) : (ofWire w).reread = ofWire w := by
  have hpath : (Json.array (w.path.map ofVec)).reread = .array (w.path.map ofVec) := by
    rw [reread_map (f := id) fun v hv => reread_ofVec (h.path v hv), List.map_id]
  unfold ofWire
  simp only [reread_object, List.map_cons, List.map_nil, reread_int32 h.layer, hpath, reread_ofPin]
  rfl

theorem reread_ofChip {c : Chip} (h : c.IsLegible) : (ofChip c).reread = ofChip c.reread := by
  have hturns : (Json.int c.rotation.turns).reread = .int c.rotation.turns :=
    congrArg Json.number (reread_int (isMachine_turns c.rotation))
  unfold ofChip
  simp only [reread_object, List.map_cons, List.map_nil, reread_ofVec h.pos, reread_ofConstants,
    hturns]
  rfl

theorem values_reread (c : Content) : c.reread.chips.values = c.chips.values.map Chip.reread := by
  unfold Content.reread Content.mapChips Table.values Table.mapValues
  dsimp only
  rw [List.map_map, List.map_map]
  rfl

theorem reread_ofContent {c : Content} (h : c.IsLegible) :
    (ofContent c).reread = ofContent c.reread := by
  have hchips : (Json.array (c.chips.values.map ofChip)).reread
      = .array (c.reread.chips.values.map ofChip) := by
    have hchip : ∀ chip ∈ c.chips.values, (ofChip chip).reread = ofChip chip.reread :=
      fun chip hmem => reread_ofChip (h.chips chip hmem)
    rw [reread_map hchip, values_reread]
  have hwires : (Json.array (c.wires.map ofWire)).reread = .array (c.wires.map ofWire) := by
    rw [reread_map (f := id) fun w hw => reread_ofWire (h.wires w hw), List.map_id]
  unfold ofContent
  simp only [reread_object, List.map_cons, List.map_nil, hchips, hwires]
  rfl

/-- Rereading the record is rereading the definition. -/
theorem reread_ofChipType {t : ChipType} (h : t.IsStorable) :
    (ofChipType t).reread = ofChipType t.reread := by
  have hcode : (t.code.elim Json.null Json.string).reread = t.code.elim .null .string := by
    cases t.code <;> rfl
  unfold ofChipType
  simp only [reread_object, List.map_cons, List.map_nil, reread_ofVec h.size, reread_ofTexts,
    reread_ofContent h.content, hcode]
  rfl

/-- What is read is legible as it was before. -/
theorem isLegible_reread {c : Content} (h : c.IsLegible) : c.reread.IsLegible := by
  refine ⟨fun chip hchip => ?_, h.wires⟩
  rw [values_reread] at hchip
  obtain ⟨d, hd, rfl⟩ := List.mem_map.1 hchip
  exact ⟨(h.chips d hd).id, (h.chips d hd).type, (h.chips d hd).pos⟩

end Record

/-! ## §6. Records as text. -/

/-- A definition is read from its record, whatever path it is read from. -/
theorem ChipType.ofRecordText_reread {t : ChipType} (h : t.IsStorable) (path : String) :
    ChipType.ofRecordText path t.recordText = .ok t.reread := by
  have hlegible := Record.isLegible_reread h.content
  have hread : Record.chipType? (Record.ofChipType t.reread) = some t.reread :=
    Record.chipType?_ofChipType Record.keepsMembers_id h.size ⟨hlegible.chips, hlegible.wires⟩ rfl
  unfold ofRecordText recordText
  rw [Json.parse?_pretty (Record.isPrintable_ofChipType h), Record.reread_ofChipType h]
  rw [Option.bind_some, hread]

theorem Constant.IsRecordable.reread_eq {c : Constant} (h : c.IsRecordable) : c.reread = c := by
  cases c with
  | text s => rfl
  | number n =>
    cases n with
    | int n => exact congrArg Constant.number (Json.reread_int h)
    | double x => exact h.elim

theorem Chip.IsRecordable.reread_eq {c : Chip} (h : c.IsRecordable) : c.reread = c := by
  unfold Chip.reread
  rw [Table.mapValues_eq_self fun e he => (h.constants e he).reread_eq]

/-- Without doubles, a definition reads as itself. -/
theorem ChipType.IsRecordable.reread_eq {t : ChipType} (h : t.IsRecordable) : t.reread = t := by
  have hchips : t.content.chips.mapValues Chip.reread = t.content.chips :=
    Table.mapValues_eq_self fun e he =>
      (h.content.chips e.2 (List.mem_map_of_mem he)).reread_eq
  obtain ⟨size, inputs, outputs, constants, ⟨csize, chips, wires, keyed⟩, code, kind,
    description⟩ := t
  obtain rfl : csize = size := h.contentSize
  unfold ChipType.reread Content.reread Content.mapChips
  dsimp only at hchips ⊢
  simp only [hchips]

/-- The record of a definition is read back, whatever path it is read from. -/
theorem ChipType.ofRecordText_recordText {t : ChipType} (h : t.IsRecordable) (path : String) :
    ChipType.ofRecordText path t.recordText = .ok t := by
  rw [ofRecordText_reread h.isStorable, h.reread_eq]

/-- Different definitions have different records. -/
theorem ChipType.recordText_injective {t u : ChipType} (ht : t.IsRecordable) (hu : u.IsRecordable)
    (h : t.recordText = u.recordText) : t = u := by
  have hread := ofRecordText_recordText ht ""
  rw [h, ofRecordText_recordText hu] at hread
  exact (Except.ok.inj hread).symm

end LogicBoard
