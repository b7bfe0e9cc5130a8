/-
  LogicBoard.Proofs.Record.Normal
  ────────────────────────────────
  **WHAT IS READ FROM A RECORD IS IN NORMAL FORM.**

  Many records tell the same definition: fields may be missing, names come in
  any case, rotations may be any number of turns, and of several chips with
  one name only the last one counts.  All this is settled when a record is
  read.  What is read can be recorded, and its record tells it again.

  Main statements:
    • `chip?_isRecordable`, `wire?_isRecordable` — the parts of a design that
      are read can be recorded,
    • `chipType?_isRecordable` — so can a definition,
    • `ofRecordText_settled` — reading, writing and reading again is reading.
-/
import LogicBoard.Proofs.Json.Words
import LogicBoard.Proofs.Record.RoundTrip

namespace LogicBoard

/-- A whole number or a text. -/
def Constant.IsExact : Constant → Prop
  | .number (.double _) => False
  | _ => True

instance : DecidablePred Constant.IsExact
  | .number (.double _) => isFalse id
  | .number (.int _) | .text _ => isTrue trivial

/-- The constants of all chips are whole numbers and texts. -/
def ChipType.IsExact (t : ChipType) : Prop :=
  ∀ chip ∈ t.content.chips.values, ∀ e ∈ chip.constants.entries, e.2.IsExact

instance (t : ChipType) : Decidable t.IsExact :=
  inferInstanceAs (Decidable (∀ chip ∈ t.content.chips.values, ∀ e ∈ chip.constants.entries,
    e.2.IsExact))

namespace Record

open Json (HasWords)

/-! ## §1. Fields and items. -/

variable {α : Type} {read? : Json → Option α} {j : Json}

theorem mem_of_lookup {entries : List (String × Json)} {key : String} {k : Json}
    (h : entries.lookup key = some k) : (key, k) ∈ entries := by
  obtain ⟨before, after, rfl, -⟩ := List.lookup_eq_some_iff.1 h
  exact List.mem_append_right _ List.mem_cons_self

/-- What stands in a field is part of the record. -/
theorem hasWords_field (h : HasWords j) {names : List String} {field : Fields}
    (hfields : fields? names j = some field) {name : String} {k : Json}
    (hk : field name = some k) : HasWords k := by
  unfold fields? at hfields
  split at hfields
  · split at hfields
    · obtain rfl := Option.some.inj hfields
      cases h with
      | object words => exact words _ (mem_of_lookup hk)
    · exact absurd hfields (by simp)
  · split at hfields
    · obtain rfl := Option.some.inj hfields
      cases h with
      | array words => exact words _ (List.of_mem_zip (mem_of_lookup hk)).2
    · exact absurd hfields (by simp)
  · exact absurd hfields (by simp)

/-- The value of a field is the default, or it is read from what stands there. -/
theorem orElse_cases {default a : α} {field : Option Json}
    (h : orElse default read? field = some a) :
    a = default ∨ ∃ k, field = some k ∧ read? k = some a := by
  cases field with
  | none => exact Or.inl (Option.some.inj h).symm
  | some k => exact Or.inr ⟨k, rfl, h⟩

theorem mem_list? (h : HasWords j) {l : List α} (hl : list? read? j = some l) {a : α}
    (ha : a ∈ l) : ∃ k, HasWords k ∧ read? k = some a := by
  unfold list? at hl
  split at hl
  · obtain ⟨k, hk, hread⟩ := Fallible.mem_mapM hl ha
    cases h with
    | array words => exact ⟨k, words k hk, hread⟩
  · exact absurd hl (by simp)

theorem mem_table? (h : HasWords j) {t : Table String α} (ht : table? read? j = some t)
    {e : String × α} (he : e ∈ t.entries) : ∃ k, HasWords k ∧ read? k = some e.2 := by
  unfold table? at ht
  split at ht
  · obtain ⟨l, hl, rfl⟩ := Option.map_eq_some_iff.1 ht
    obtain ⟨d, hd, hread⟩ := Fallible.mem_mapM hl (Table.mem_of_mem_ofList he)
    obtain ⟨a, ha, rfl⟩ := Option.map_eq_some_iff.1 hread
    cases h with
    | object words => exact ⟨d.2, words d hd, ha⟩
  · exact absurd ht (by simp)

/-! ## §2. Simple values. -/

theorem isInt32_of_int32? {n : Int} (h : int32? j = some n) : IsInt32 n := by
  unfold int32? at h
  obtain ⟨-, hrange⟩ := Option.filter_eq_some_iff.1 h
  simpa [IsInt32] using hrange

theorem isFolded_of_name? {n : Name} (h : name? j = some n) : n.IsFolded := by
  unfold name? at h
  split at h
  · rename_i s
    exact ⟨s, Option.some.inj h⟩
  · exact absurd h (by simp)

theorem vec?_isRecordable {v : Vec} (h : vec? j = some v) : v.IsRecordable := by
  unfold vec? at h
  simp only [Option.bind_eq_bind, Option.bind_eq_some_iff] at h
  obtain ⟨field, -, jx, -, x, hx, jy, -, y, hy, heq⟩ := h
  obtain rfl := Option.some.inj heq
  exact ⟨isInt32_of_int32? hx, isInt32_of_int32? hy⟩

theorem isRecordable_one : Vec.one.IsRecordable := ⟨by decide, by decide⟩

/-- A constant that is no double is a word or a text. -/
theorem constant?_isRecordable (hj : HasWords j) {c : Constant} (h : constant? j = some c)
    (hexact : c.IsExact) : c.IsRecordable := by
  unfold constant? at h
  split at h
  · rename_i n
    obtain rfl := Option.some.inj h
    cases n with
    | int n =>
      cases hj with
      | number word => exact word
    | double x => exact hexact.elim
  · obtain rfl := Option.some.inj h
    trivial
  · exact absurd h (by simp)

/-! ## §3. The design. -/

theorem isFolded_of_pin? {p : Pin} (h : pin? j = some p) : p.chip.IsFolded := by
  unfold pin? at h
  simp only [Option.bind_eq_bind, Option.bind_eq_some_iff] at h
  obtain ⟨field, -, k, -, chip, hchip, output, -, port, -, heq⟩ := h
  obtain rfl := Option.some.inj heq
  exact isFolded_of_name? hchip

theorem wire?_isRecordable (hj : HasWords j) {w : Wire} (h : wire? j = some w) :
    w.IsRecordable := by
  unfold wire? at h
  simp only [Option.bind_eq_bind, Option.bind_eq_some_iff] at h
  obtain ⟨field, hfields, layer, hlayer, path, hpath, js, -, source, hsource, jt, -, target,
    htarget, drawn, -, valid, -, heq⟩ := h
  obtain rfl := Option.some.inj heq
  constructor
  case layer =>
    rcases orElse_cases hlayer with rfl | ⟨k, -, hread⟩
    · exact (by decide : IsInt32 0)
    · exact isInt32_of_int32? hread
  case path =>
    intro cell hcell
    rcases orElse_cases hpath with rfl | ⟨k, hk, hread⟩
    · exact absurd hcell List.not_mem_nil
    · obtain ⟨i, -, hi⟩ := mem_list? (hasWords_field hj hfields hk) hread hcell
      exact vec?_isRecordable hi
  case source => exact isFolded_of_pin? hsource
  case target => exact isFolded_of_pin? htarget

theorem chip?_isRecordable (hj : HasWords j) {c : Chip} (h : chip? j = some c)
    (hexact : ∀ e ∈ c.constants.entries, e.2.IsExact) : c.IsRecordable := by
  unfold chip? at h
  simp only [Option.bind_eq_bind, Option.bind_eq_some_iff] at h
  obtain ⟨field, hfields, ji, -, id, hid, label, -, jt, -, type, htype, pos, hpos, constants,
    hconstants, rotation, -, heq⟩ := h
  obtain rfl := Option.some.inj heq
  constructor
  case id => exact isFolded_of_name? hid
  case type => exact isFolded_of_name? htype
  case pos =>
    rcases orElse_cases hpos with rfl | ⟨k, -, hread⟩
    · exact isRecordable_one
    · exact vec?_isRecordable hread
  case constants =>
    intro e he
    rcases orElse_cases hconstants with rfl | ⟨k, hk, hread⟩
    · exact absurd he List.not_mem_nil
    · obtain ⟨i, hi, hconstant⟩ := mem_table? (hasWords_field hj hfields hk) hread he
      exact constant?_isRecordable hi hconstant (hexact e he)

/-- Every chip that stays in a content is one of those that were listed. -/
theorem mem_of_mem_ofChips {size : Vec} {chips : List Chip} {wires : List Wire} {c : Chip}
    (h : c ∈ (Content.ofChips size chips wires).chips.values) : c ∈ chips := by
  obtain ⟨-, -, hchips⟩ := Content.ofChips_frame size chips wires
  rw [hchips] at h
  obtain ⟨e, he, rfl⟩ := List.mem_map.1 h
  obtain ⟨d, hd, rfl⟩ := List.mem_map.1 (Table.mem_of_mem_ofList he)
  exact hd

theorem content?_isRecordable (hj : HasWords j) {c : Content} (h : content? j = some c)
    (hexact : ∀ chip ∈ c.chips.values, ∀ e ∈ chip.constants.entries, e.2.IsExact) :
    c.IsRecordable := by
  unfold content? at h
  simp only [Option.bind_eq_bind, Option.bind_eq_some_iff] at h
  obtain ⟨field, hfields, chips, hchips, wires, hwires, heq⟩ := h
  obtain rfl := Option.some.inj heq
  constructor
  case chips =>
    intro chip hchip
    rcases orElse_cases hchips with rfl | ⟨k, hk, hread⟩
    · exact absurd (mem_of_mem_ofChips hchip) List.not_mem_nil
    · obtain ⟨i, hi, hread⟩ :=
        mem_list? (hasWords_field hj hfields hk) hread (mem_of_mem_ofChips hchip)
      exact chip?_isRecordable hi hread (hexact chip hchip)
  case wires =>
    intro w hw
    rcases orElse_cases hwires with rfl | ⟨k, hk, hread⟩
    · exact absurd hw List.not_mem_nil
    · obtain ⟨i, hi, hread⟩ := mem_list? (hasWords_field hj hfields hk) hread hw
      exact wire?_isRecordable hi hread

/-- A definition that is read can be recorded, unless it has doubles among its constants. -/
theorem chipType?_isRecordable (hj : HasWords j) {t : ChipType} (h : chipType? j = some t)
    (hexact : t.IsExact) : t.IsRecordable := by
  unfold chipType? at h
  simp only [Option.bind_eq_bind, Option.bind_eq_some_iff] at h
  obtain ⟨field, hfields, size, hsize, inputs, -, outputs, -, kind, -, constants, -, content,
    hcontent, description, -, code, -, heq⟩ := h
  obtain rfl := Option.some.inj heq
  constructor
  case size =>
    rcases orElse_cases hsize with rfl | ⟨k, -, hread⟩
    · exact isRecordable_one
    · exact vec?_isRecordable hread
  case content =>
    -- The size, which the content takes from its type, plays no part here.
    have hrecordable : content.IsRecordable := by
      rcases orElse_cases hcontent with rfl | ⟨k, hk, hread⟩
      · exact ⟨by simp [Content.ofSize, Table.values, Table.empty], by simp [Content.ofSize]⟩
      · exact content?_isRecordable (hasWords_field hj hfields hk) hread hexact
    exact ⟨hrecordable.chips, hrecordable.wires⟩
  case contentSize => rfl

end Record

/-! ## §4. Records as text. -/

/-- Whatever text a definition was read from, its own record tells it again, provided that the
constants of its chips are whole numbers and texts. -/
theorem ChipType.ofRecordText_settled {path s : String} {t : ChipType}
    (h : ofRecordText path s = .ok t) (hexact : t.IsExact) (path' : String) :
    ofRecordText path' t.recordText = .ok t := by
  unfold ofRecordText at h
  split at h
  · rename_i u hread
    obtain rfl := Except.ok.inj h
    obtain ⟨j, hj, hu⟩ := Option.bind_eq_some_iff.1 hread
    have hrecordable := Record.chipType?_isRecordable (Json.hasWords_of_parse? hj) hu hexact
    exact ofRecordText_recordText hrecordable path'
  · exact absurd h (by simp)

/-- A record with names in capitals, seven quarter turns, two chips of one name, and most fields
missing. -/
def tangledText : String :=
  "\x7b\"size\": \x7b\"x\": 2, \"y\": 1\x7d, \"content\": \x7b\"chips\": [" ++
  "\x7b\"id\": \"GATE\", \"type\": \"and\"\x7d, " ++
  "\x7b\"type\": \"Or\", \"id\": \"Gate\", \"rotation\": 7, " ++
  "\"constants\": \x7b\"K\": -3\x7d\x7d], " ++
  "\"connections\": [\x7b\"source\": \x7b\"chip\": \"GATE\", \"output\": true, " ++
  "\"name\": \"R\"\x7d, " ++
  "\"target\": \x7b\"chip\": \"Top\"\x7d\x7d]\x7d\x7d"

/-- What it tells: one chip of one spelling, three quarter turns, and the default in every field. -/
def tangledType : ChipType where
  size := ⟨2, 1⟩
  inputs := []
  outputs := []
  constants := []
  content := .ofChips ⟨2, 1⟩
    [⟨⟨"gate"⟩, "", ⟨"or"⟩, .one, .ofList [("K", .number (.int (-3)))], .r3⟩]
    [⟨0, [], ⟨⟨"gate"⟩, true, "R"⟩, ⟨⟨"top"⟩, false, ""⟩, false, true⟩]
  code := none
  kind := "custom"
  description := ""

theorem ofRecordText_settled_tangled :
    ChipType.ofRecordText "shelf" tangledText = .ok tangledType ∧ tangledType.IsExact ∧
      ChipType.ofRecordText "attic" tangledType.recordText = .ok tangledType := by
  have hread : ChipType.ofRecordText "shelf" tangledText = .ok tangledType := by decide +kernel
  have hexact : tangledType.IsExact := by decide +kernel
  exact ⟨hread, hexact, ChipType.ofRecordText_settled hread hexact "attic"⟩

end LogicBoard
