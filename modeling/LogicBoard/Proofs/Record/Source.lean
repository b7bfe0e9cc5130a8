/-
  LogicBoard.Proofs.Record.Source
  ────────────────────────────────
  **SOURCES ARE READ BACK.**

  A source is read from its text in three steps: the document is settled,
  its shape is checked, and it is converted.  The text that is written for a
  source passes all of them, and the source comes out again, as long as its
  types are canonical and all of it is recordable.  Sizes of canonical types
  are within the range that is checked.

  Main statements:
    • `keepsMembers_settled` — settled records are read as they are,
    • `checkType_settled`, `checkDocument_settled` — they have the right
      shape,
    • `ofText_text` — a source is read from its own text.
-/
import LogicBoard.Proofs.Json.Settled
import LogicBoard.Proofs.Record.RoundTrip
import LogicBoard.Record.Source

namespace LogicBoard

open Json (settled settled_array settled_object settledEntries)

namespace Record

/-! ## §1. Settled records are read back. -/

/-- Settling keeps what a reader looks at. -/
theorem keepsMembers_settled : KeepsMembers settled where
  scalar := fun j harray hobject => by
    cases j with
    | array items => exact absurd harray (by simp [Json.array?])
    | object entries => exact absurd hobject (by simp [Json.object?])
    | _ => rfl
  array := settled_array
  fields := fun names entries h => by
    rw [settled_object, fields?_object (Json.keys_settled_nodup entries)]
    exact congrArg some (funext fun name => Json.lookup_settled h name)
  rising := fun _ => Json.settled_of_rising

/-- Types are sorted by their names, and their names are folded. -/
theorem typeTable?_ofTypeTable {f : Json → Json} (hf : KeepsMembers f) {types : TypeTable}
    (h : ∀ e ∈ types.entries, e.1.IsFolded ∧ e.2.IsRecordable) :
    typeTable? (f (ofTypeTable types)) = some types := by
  have hrising : (types.entries.map fun e => (e.1.text, ofChipType e.2)).Pairwise
      fun a b => a.1 < b.1 := by
    rw [List.pairwise_map]
    exact types.rising
  unfold typeTable? ofTypeTable
  rw [hf.rising _ hrising, List.map_map]
  dsimp only
  rw [Fallible.mapM_map fun e he => by
    show (chipType? (f (ofChipType e.2))).map (fun t => (Name.ofText e.1.text, t)) = some e
    obtain ⟨hname, hrecordable⟩ := h e he
    rw [chipType?_ofChipType hf hrecordable.size hrecordable.content.isLegible
      hrecordable.contentSize, hname.ofText_text]
    rfl]
  exact congrArg some (Table.ofList_entries types)

/-! ## §2. Records fit. -/

open Json (Fits)

theorem fits_nil {room : Nat} : Fits (room + 1) (.object []) := .object (by simp)

theorem fits_cons {room : Nat} {key : String} {j : Json} {rest : List (String × Json)} :
    Fits (room + 1) (.object ((key, j) :: rest)) ↔
      Fits room j ∧ Fits (room + 1) (.object rest) := by
  constructor
  · intro h
    cases h with
    | object fits =>
      obtain ⟨hj, hrest⟩ := List.forall_mem_cons.1 fits
      exact ⟨hj, .object hrest⟩
  · rintro ⟨hj, hobject⟩
    cases hobject with
    | object hrest => exact .object (List.forall_mem_cons.2 ⟨hj, hrest⟩)

theorem fits_array {α : Type} {room : Nat} {write : α → Json} {l : List α}
    (h : ∀ a, Fits room (write a)) : Fits (room + 1) (.array (l.map write)) :=
  .array (List.forall_mem_map.2 fun a _ => h a)

theorem fits_ofVec (room : Nat) (v : Vec) : Fits (room + 1) (ofVec v) := by
  simp only [ofVec, fits_cons, fits_nil, and_true]
  exact ⟨.number _, .number _⟩

theorem fits_ofTexts (room : Nat) (l : List String) : Fits (room + 1) (ofTexts l) :=
  fits_array fun s => .string s

theorem fits_ofConstants (room : Nat) (t : Table String Constant) :
    Fits (room + 1) (ofConstants t) := by
  refine .object (List.forall_mem_map.2 fun e _ => ?_)
  obtain ⟨key, c⟩ := e
  cases c with
  | number n => exact .number n
  | text s => exact .string s

theorem fits_ofPin (room : Nat) (p : Pin) : Fits (room + 1) (ofPin p) := by
  simp only [ofPin, fits_cons, fits_nil, and_true]
  exact ⟨.string _, .bool _, .string _⟩

theorem fits_ofWire (room : Nat) (w : Wire) : Fits (room + 3) (ofWire w) := by
  simp only [ofWire, fits_cons, fits_nil, and_true]
  exact ⟨.number _, fits_array (fits_ofVec room), fits_ofPin _ _, fits_ofPin _ _, .bool _, .bool _⟩

theorem fits_ofChip (room : Nat) (c : Chip) : Fits (room + 2) (ofChip c) := by
  simp only [ofChip, fits_cons, fits_nil, and_true]
  exact ⟨.string _, .string _, .string _, fits_ofVec _ _, fits_ofConstants _ _, .number _⟩

theorem fits_ofContent (room : Nat) (c : Content) : Fits (room + 5) (ofContent c) := by
  simp only [ofContent, fits_cons, fits_nil, and_true]
  exact ⟨fits_array (fits_ofChip (room + 1)), fits_array (fits_ofWire room)⟩

theorem fits_ofChipType (room : Nat) (t : ChipType) : Fits (room + 6) (ofChipType t) := by
  have hcode : Fits (room + 5) (t.code.elim .null .string) := by
    cases t.code with
    | none => exact .null
    | some s => exact .string s
  simp only [ofChipType, fits_cons, fits_nil, and_true]
  exact ⟨fits_ofVec _ _, fits_ofTexts _ _, fits_ofTexts _ _, .string _, fits_ofTexts _ _,
    fits_ofContent room _, .string _, hcode⟩

theorem fits_ofTypeTable (room : Nat) (types : TypeTable) :
    Fits (room + 7) (ofTypeTable types) :=
  .object (List.forall_mem_map.2 fun e _ => fits_ofChipType room e.2)

end Record

namespace Source

open Record (ofTexts ofPin ofVec ofWire ofContent ofChipType ofChip ofTypeTable)

/-! ## §3. Settled records have the right shape. -/

theorem needObject_settled (entries : List (String × Json)) (path : String) :
    needObject (settled (.object entries)) path = .ok (settledEntries entries) := by
  rw [settled_object]
  rfl

variable {entries : List (String × Json)} (h : (entries.map (·.1)).Nodup) {key : String}

include h

theorem get?_settled {value : Json} (hvalue : entries.lookup key = some value) :
    (settled (.object entries)).get? key = some value.settled := by
  rw [settled_object]
  show (settledEntries entries).lookup key = _
  rw [Json.lookup_settled h, hvalue]
  rfl

theorem member_settled {value : Json} (hvalue : entries.lookup key = some value) (path : String) :
    member (settled (.object entries)) path key = .ok value.settled := by
  unfold member
  rw [get?_settled h hvalue]

theorem stringMember_settled {s : String} (hvalue : entries.lookup key = some (.string s))
    (path : String) : stringMember (settled (.object entries)) path key = .ok () := by
  unfold stringMember
  rw [member_settled h hvalue]
  rfl

theorem arrayMember_settled {items : List Json} (hvalue : entries.lookup key = some (.array items))
    (path : String) :
    arrayMember (settled (.object entries)) path key = .ok (items.map settled) := by
  unfold arrayMember
  rw [member_settled h hvalue, settled_array]
  rfl

omit h in
/-- The items of an array pass if each of them does, whatever its position is. -/
theorem checkItems_settled {α : Type} {write : α → Json} {l : List α}
    {check : Json × Nat → Check Unit} (hitems : ∀ a i, check ((write a).settled, i) = .ok ()) :
    ((l.map write).map settled).zipIdx.forM check = .ok () := by
  refine Fallible.forM_ok fun item hitem => ?_
  have hmem : item.1 ∈ (l.map write).map settled := List.fst_mem_of_mem_zipIdx hitem
  rw [List.map_map] at hmem
  obtain ⟨a, -, ha⟩ := List.mem_map.1 hmem
  obtain ⟨j, i⟩ := item
  obtain rfl : (write a).settled = j := ha
  exact hitems a i

theorem stringsMember_settled {l : List String} (hvalue : entries.lookup key = some (ofTexts l))
    (path : String) : stringsMember (settled (.object entries)) path key = .ok () := by
  unfold stringsMember
  rw [arrayMember_settled h hvalue]
  exact checkItems_settled fun s i => rfl

theorem objectMember_settled {members : List (String × Json)}
    (hvalue : entries.lookup key = some (.object members)) (path : String) :
    objectMember (settled (.object entries)) path key = .ok (settledEntries members) := by
  unfold objectMember
  rw [member_settled h hvalue, Fallible.ok_bind]
  exact needObject_settled members (path ++ "." ++ key)

omit h

theorem checkPin_settled (p : Pin) (path : String) : checkPin (ofPin p).settled path = .ok () := by
  unfold checkPin ofPin
  rw [needObject_settled, Fallible.ok_bind, stringMember_settled (by simp) rfl, Fallible.ok_bind,
    stringMember_settled (by simp) rfl, Fallible.ok_bind, member_settled (by simp) rfl]
  rfl

/-- Sizes from 1 to 1000 pass. -/
theorem checkSize_settled {v : Vec} (hx : 1 ≤ v.x ∧ v.x ≤ 1000) (hy : 1 ≤ v.y ∧ v.y ≤ 1000)
    (path : String) : checkSize (ofVec v).settled path = .ok () := by
  have hextent : ∀ key n most, [("x", Json.int v.x), ("y", Json.int v.y)].lookup key
      = some (.int n) → 1 ≤ n ∧ n ≤ most → checkExtent (ofVec v).settled path key most = .ok () := by
    intro key n most hvalue hn
    have hmember : member (ofVec v).settled path key = .ok (.int n) :=
      member_settled (by simp) hvalue path
    unfold checkExtent
    rw [hmember, Fallible.ok_bind]
    exact if_pos (by simp [hn])
  have hobject : needObject (ofVec v).settled path = .ok (settledEntries _) :=
    needObject_settled _ path
  unfold checkSize
  rw [hobject, Fallible.ok_bind, hextent "x" v.x largestSize.x rfl hx, Fallible.ok_bind,
    hextent "y" v.y largestSize.y rfl hy]

theorem checkWire_settled (w : Wire) (path : String) :
    checkWire (ofWire w).settled path = .ok () := by
  unfold checkWire ofWire
  rw [member_settled (by simp) rfl, Fallible.ok_bind, checkPin_settled, Fallible.ok_bind,
    member_settled (by simp) rfl, Fallible.ok_bind, checkPin_settled]

theorem checkContent_settled (c : Content) (path : String) :
    checkContent (ofContent c).settled path = .ok () := by
  unfold checkContent ofContent
  rw [needObject_settled, Fallible.ok_bind, arrayMember_settled (by simp) rfl, Fallible.ok_bind,
    arrayMember_settled (by simp) rfl, Fallible.ok_bind]
  exact checkItems_settled fun w i => checkWire_settled w _

/-- The record of a canonical type has the right shape. -/
theorem checkType_settled {t : ChipType} (ht : t.IsCanonical) (path : String) :
    checkType (ofChipType t).settled path = .ok () := by
  have hslots : ["inputs", "outputs", "constants"].forM
      (stringsMember (ofChipType t).settled path) = .ok () := by
    refine Fallible.forM_ok fun key hkey => ?_
    simp only [List.mem_cons, List.not_mem_nil, or_false] at hkey
    rcases hkey with rfl | rfl | rfl
    all_goals exact stringsMember_settled (by simp) rfl path
  -- The size is within the range that is checked because the type is canonical.
  unfold ofChipType at hslots
  unfold checkType ofChipType
  rw [needObject_settled, Fallible.ok_bind, get?_settled (by simp) rfl]
  dsimp only
  rw [checkSize_settled ht.width ht.height, Fallible.ok_bind, hslots, Fallible.ok_bind,
    member_settled (by simp) rfl, Fallible.ok_bind, checkContent_settled]

/-! ## §4. Sources. -/

/-- All types are canonical, and nothing in the source is lost in a record. -/
structure IsRecordable (s : Source) : Prop where
  chip : s.chip.IsRecordable
  types : ∀ name t, s.types.find? name = some t →
    name.IsFolded ∧ t.IsCanonical ∧ t.content.IsRecordable

theorem IsRecordable.entry {s : Source} (h : s.IsRecordable) {e : Name × ChipType}
    (he : e ∈ s.types.entries) : e.1.IsFolded ∧ e.2.IsCanonical ∧ e.2.IsRecordable := by
  obtain ⟨hname, hcanonical, hcontent⟩ := h.types e.1 e.2 (Table.find?_eq_some_iff.2 he)
  exact ⟨hname, hcanonical, hcanonical.isRecordable hcontent⟩

/-- The document of a source has the right shape. -/
theorem checkDocument_settled {s : Source} (h : s.IsRecordable) :
    checkDocument s.toJson.settled = .ok () := by
  have hslots : ["id", "name", "type"].forM (stringMember (ofChip s.chip).settled "chip")
      = .ok () := by
    refine Fallible.forM_ok fun key hkey => ?_
    simp only [List.mem_cons, List.not_mem_nil, or_false] at hkey
    rcases hkey with rfl | rfl | rfl
    all_goals exact stringMember_settled (by simp) rfl "chip"
  have hconstants : objectMember (ofChip s.chip).settled "chip" "constants"
      = .ok (settledEntries _) := objectMember_settled (by simp) rfl "chip"
  have hobject : needObject (ofChip s.chip).settled "chip" = .ok (settledEntries _) :=
    needObject_settled _ "chip"
  unfold checkDocument toJson
  dsimp only
  rw [needObject_settled, Fallible.ok_bind, member_settled (by simp) rfl, Fallible.ok_bind,
    hobject, Fallible.ok_bind, hslots, Fallible.ok_bind, hconstants, Fallible.ok_bind,
    objectMember_settled (by simp) rfl, Fallible.ok_bind]
  -- Every entry that is checked comes from a type of the table, in whatever order.
  refine Fallible.forM_ok fun entry hentry => ?_
  obtain ⟨d, hd, rfl⟩ := Json.exists_of_mem_settledEntries hentry
  obtain ⟨e, he, rfl⟩ := List.mem_map.1 hd
  exact checkType_settled (h.entry he).2.1 _

/-- A source is read back from its document. -/
theorem ofRecord?_toJson {f : Json → Json} (hf : Record.KeepsMembers f) {s : Source}
    (h : s.IsRecordable) : ofRecord? (f s.toJson) = some s := by
  have htypes : ∀ e ∈ s.types.entries, e.1.IsFolded ∧ e.2.IsRecordable := fun e he =>
    ⟨(h.entry he).1, (h.entry he).2.2⟩
  unfold ofRecord? toJson
  rw [hf.fields _ _ (by simp)]
  show (do
    let chip ← Record.chip? (f (ofChip s.chip))
    let types ← Record.typeTable? (f (ofTypeTable s.types))
    return ⟨chip, types⟩ : Option Source) = some s
  rw [Record.chip?_ofChip hf h.chip.isLegible, Record.typeTable?_ofTypeTable hf htypes]
  rfl

/-- The document of a source has machine numbers only. -/
theorem isPrintable_toJson {s : Source} (h : s.IsRecordable) : s.toJson.IsPrintable := by
  have htypes : (ofTypeTable s.types).IsPrintable :=
    .object (List.forall_mem_map.2 fun e he =>
      Record.isPrintable_ofChipType (h.entry he).2.2.isStorable)
  simp only [toJson, Record.isPrintable_cons, Record.isPrintable_nil, and_true]
  exact ⟨Record.isPrintable_ofChip h.chip.isLegible fun e he =>
    (h.chip.constants e he).isStorable, htypes⟩

/-- All its numbers are read as they are. -/
theorem reread_toJson {s : Source} (h : s.IsRecordable) : s.toJson.reread = s.toJson := by
  have hchip : (ofChip s.chip).reread = ofChip s.chip := by
    rw [Record.reread_ofChip h.chip.isLegible, h.chip.reread_eq]
  have htypes : (ofTypeTable s.types).reread = ofTypeTable s.types := by
    unfold Record.ofTypeTable
    rw [Json.reread_object, List.map_map]
    refine congrArg Json.object (List.map_congr_left fun e he => ?_)
    obtain ⟨-, -, hrecordable⟩ := h.entry he
    show (e.1.text, (ofChipType e.2).reread) = (e.1.text, ofChipType e.2)
    rw [Record.reread_ofChipType hrecordable.isStorable, hrecordable.reread_eq]
  unfold toJson
  simp only [Json.reread_object, List.map_cons, List.map_nil, hchip, htypes]

/-- A source is read from its own text. -/
theorem ofText_text {s : Source} (h : s.IsRecordable) : ofText s.text = .ok s := by
  have hfits : Json.Fits Json.deepest s.toJson := by
    -- A source is eight levels deep, far less than the reader can follow.
    show Json.Fits (119 + 8) s.toJson
    simp only [toJson, Record.fits_cons, Record.fits_nil, and_true]
    exact ⟨Record.fits_ofChip _ _, Record.fits_ofTypeTable _ _⟩
  unfold ofText text
  rw [Json.parse?_pretty (isPrintable_toJson h), reread_toJson h, Option.bind_some]
  unfold Json.settle?
  rw [Json.settleIn?_eq hfits]
  dsimp only
  unfold ofJson
  rw [checkDocument_settled h, Fallible.ok_bind, ofRecord?_toJson Record.keepsMembers_settled h]

end Source

end LogicBoard
