/-
  LogicBoard.Proofs.Registry.Operation
  ────────────────────────────────
  **USING A REGISTRY, ONE OPERATION AFTER THE OTHER.**

  Whatever the store is, an operation has one of few effects: it defines one
  type, forgets some types, takes over what is in the store, or leaves all
  types alone.  What is defined is always canonical and can be recorded; the
  argument is about contents only, and resizing is the one operation that
  makes a content of its own.

  Main statements:
    • `forall_get` — what holds of all types that can be looked up,
    • `AllDefinable.content_resized` — a resized content can be recorded,
    • `defines_change` — what a change of a custom type leaves behind,
    • `change_of_apply` — what an operation does.
-/
import LogicBoard.Proofs.Routing.Extent
import LogicBoard.Registry

namespace LogicBoard

/-! ## §1. Standard types. -/

namespace Library

theorem mem_catalogue_of_find? {name : Name} {t : ChipType} (h : standard.find? name = some t) :
    ∃ e ∈ catalogue, t = e.2.canonical := by
  unfold standard at h
  rw [Table.find?_ofList, Option.map_eq_some_iff] at h
  obtain ⟨d, hd, rfl⟩ := h
  obtain ⟨e, he, rfl⟩ := List.mem_map.1 (List.mem_reverse.1 (List.mem_of_find?_eq_some hd))
  exact ⟨e, he, rfl⟩

theorem isEmpty_of_mem_catalogue : ∀ e ∈ catalogue, e.2.content.isEmpty = true := by
  decide +kernel

end Library

theorem Content.isRecordable_of_isEmpty {c : Content} (h : c.isEmpty = true) : c.IsRecordable := by
  obtain ⟨hchips, hwires⟩ := Bool.and_eq_true_iff.1 h
  rw [List.isEmpty_iff] at hwires
  have hvalues : c.chips.values = [] := by
    unfold Table.values
    rw [List.isEmpty_iff.1 hchips, List.map_nil]
  constructor
  · rw [hvalues]
    simp
  · rw [hwires]
    simp

/-! ## §2. Definitions that are held. -/

namespace Registry

universe u

variable {σ : Type u}

/-- A registry may hold the definition under the name. -/
structure Definable (name : Name) (t : ChipType) : Prop where
  name : isStandard name = false
  canonical : t.IsCanonical
  content : t.content.IsRecordable

theorem Definable.isRecordable {name : Name} {t : ChipType} (h : Definable name t) :
    t.IsRecordable :=
  h.canonical.isRecordable h.content

/-- A content that can be recorded makes a definition that can be held. -/
theorem definable_canonical {name : Name} {t : ChipType} (hname : isStandard name = false)
    (hcontent : t.content.IsRecordable) : Definable name t.canonical :=
  ⟨hname, t.isCanonical_canonical, hcontent.chips, hcontent.wires⟩

/-- All types of a table are definitions that can be held. -/
def AllDefinable (custom : TypeTable) : Prop :=
  ∀ name t, custom.find? name = some t → Definable name t

theorem AllDefinable.insert {custom : TypeTable} (h : AllDefinable custom) {name : Name}
    {t : ChipType} (ht : Definable name t) : AllDefinable (custom.insert name t) :=
  Table.forall_insert h ht

theorem AllDefinable.erase {custom : TypeTable} (h : AllDefinable custom) (name : Name) :
    AllDefinable (custom.erase name) :=
  Table.forall_erase h name

theorem isCanonical_skeleton : ChipType.skeleton.IsCanonical := by
  have h : ChipType.skeleton.canonical = ChipType.skeleton := by decide +kernel
  rw [← h]
  exact ChipType.isCanonical_canonical _

/-- What holds of the standard types, of all custom types and of the skeleton, holds of every type
that is looked up. -/
theorem forall_get {P : ChipType → Prop} {r : Registry σ}
    (hstandard : ∀ e ∈ Library.catalogue, P e.2.canonical)
    (hcustom : ∀ name t, r.custom.find? name = some t → P t) (hskeleton : P .skeleton)
    (name : Name) : P (r.types.get name) := by
  show P (((Library.standard.find? name).or (r.custom.find? name)).getD .skeleton)
  cases hs : Library.standard.find? name with
  | some t =>
    obtain ⟨e, he, rfl⟩ := Library.mem_catalogue_of_find? hs
    exact hstandard e he
  | none =>
    cases hc : r.custom.find? name with
    | some t => exact hcustom name t hc
    | none => exact hskeleton

/-- All types are canonical, whether they are known or not, and their contents can be recorded. -/
theorem AllDefinable.get {r : Registry σ} (h : AllDefinable r.custom) (name : Name) :
    (r.types.get name).IsCanonical ∧ (r.types.get name).content.IsRecordable := by
  refine forall_get (P := fun t => t.IsCanonical ∧ t.content.IsRecordable) ?_ ?_ ?_ name
  · intro e he
    have hcontent := Content.isRecordable_of_isEmpty (Library.isEmpty_of_mem_catalogue e he)
    exact ⟨e.2.isCanonical_canonical, hcontent.chips, hcontent.wires⟩
  · exact fun name t ht => ⟨(h name t ht).canonical, (h name t ht).content⟩
  · exact ⟨isCanonical_skeleton, Content.isRecordable_of_isEmpty rfl⟩

/-! ## §3. Resizing. -/

/-- The extent of the board that a type gets if it is resized. -/
def boardExtent (r : Registry σ) (name : Name) (size : Vec) : Vec :=
  ((r.allowedSize name size).clampVec .one largestSize).scale r.route.scale

/-- The board, and the cell beyond its far corner, have coordinates of 32 bits.  Coordinates are whole
numbers here, while a program keeps them in 32 bits: this is where the two are the same, as none of
the products and sums that a resized board is made with overflows. -/
def HasRoom (r : Registry σ) (name : Name) (size : Vec) : Prop :=
  (r.boardExtent name size).IsRecordable ∧ (r.boardExtent name size + .one).IsRecordable

/-- The board on which a resized type is routed again. -/
def resizedBoard (r : Registry σ) (name : Name) (t : ChipType) (size : Vec) : Board :=
  let t := { t with size }.canonical
  let types := r.typesWith name t
  let grid := t.content.gridSize r.route.scale
  ⟨name, t.content.mapChips (·.clampTo grid types) (Chip.clampTo_id grid types), types, r.route⟩

theorem resized_content (r : Registry σ) (name : Name) (t : ChipType) (size : Vec) :
    (r.resized name t size).content = (r.resizedBoard name t size).content ∨
      (r.resized name t size).content = ((r.resizedBoard name t size).rerouted none).content := by
  unfold resized
  dsimp only
  split
  · rename_i n content hroute
    exact Or.inr (Board.reroute_ok (b := r.resizedBoard name t size) hroute)
  · exact Or.inl rfl

theorem clampVec_clampVec (a lo hi : Vec) :
    (a.clampVec lo hi).clampVec lo hi = a.clampVec lo hi := by
  unfold Vec.clampVec
  ext
  · dsimp only
    omega
  · dsimp only
    omega

theorem clampTo_clampTo (c : Chip) (grid : Vec) (types : TypeLookup) :
    (c.clampTo grid types).clampTo grid types = c.clampTo grid types :=
  congrArg (fun pos => { c with pos }) (clampVec_clampVec c.pos .zero _)

/-- On a board with room, chips are where they can be recorded. -/
theorem isRecordable_clampTo {c : Chip} (h : c.IsRecordable) {grid : Vec}
    (hgrid : grid.IsRecordable) {types : TypeLookup} (htype : (types.get c.type).IsCanonical) :
    (c.clampTo grid types).IsRecordable := by
  have hfoot : 0 ≤ (c.footprint types).x ∧ 0 ≤ (c.footprint types).y := by
    obtain ⟨hwidth, hheight⟩ := And.intro htype.width htype.height
    unfold Chip.footprint Rotation.footprint Chip.size Vec.swap
    split
    · dsimp only
      omega
    · omega
  obtain ⟨hx, hy⟩ := hgrid
  have hpos : (c.clampTo grid types).pos.IsRecordable := by
    constructor
    · show IsInt32 (max (min c.pos.x (grid.x - (c.footprint types).x)) 0)
      unfold IsInt32 at hx ⊢
      omega
    · show IsInt32 (max (min c.pos.y (grid.y - (c.footprint types).y)) 0)
      unfold IsInt32 at hy ⊢
      omega
  exact ⟨h.id, h.type, hpos, h.constants⟩

/-- A chip on the resized board is a chip of the content that was moved onto the board. -/
theorem mem_resizedBoard {r : Registry σ} {name : Name} {t : ChipType} {size : Vec} {c : Chip}
    (h : c ∈ (r.resizedBoard name t size).content.chips.values) : ∃ d ∈ t.content.chips.values,
      c = d.clampTo (r.resizedBoard name t size).extent (r.resizedBoard name t size).types := by
  obtain ⟨e, he, rfl⟩ := List.mem_map.1 h
  obtain ⟨d, hd, rfl⟩ := List.mem_map.1 he
  exact ⟨d.2, List.mem_map.2 ⟨d, hd, rfl⟩, rfl⟩

variable {r : Registry σ}

theorem AllDefinable.fits_resizedBoard (h : AllDefinable r.custom) {name : Name} {t : ChipType} {size : Vec}
    (hroom : r.HasRoom name size) : (r.resizedBoard name t (r.allowedSize name size)).Fits := by
  constructor
  case types =>
    intro other
    show (if other = name then _ else r.types.get other : ChipType).IsCanonical
    split
    · exact ChipType.isCanonical_canonical _
    · exact (h.get other).1
  case owner =>
    show (if name = name then _ else r.types.get name : ChipType).size = _
    rw [if_pos rfl]
    rfl
  case chips =>
    intro c hc
    obtain ⟨d, -, rfl⟩ := mem_resizedBoard hc
    exact clampTo_clampTo _ _ _
  case extent => exact hroom.1
  case beyond => exact hroom.2

/-- A resized content can be recorded. -/
theorem AllDefinable.content_resized (h : AllDefinable r.custom) {name : Name} {t : ChipType} {size : Vec}
    (ht : t.content.IsRecordable) (hroom : r.HasRoom name size) :
    (r.resized name t (r.allowedSize name size)).content.IsRecordable := by
  have hfits := h.fits_resizedBoard (t := t) hroom
  have hchips : ∀ c ∈ (r.resizedBoard name t (r.allowedSize name size)).content.chips.values,
      c.IsRecordable := by
    intro c hc
    obtain ⟨d, hd, rfl⟩ := mem_resizedBoard hc
    exact isRecordable_clampTo (ht.chips d hd) hfits.extent (hfits.types d.type)
  rcases r.resized_content name t (r.allowedSize name size) with hcontent | hcontent
  · rw [hcontent]
    exact ⟨hchips, ht.wires⟩
  · obtain ⟨wires, hboard, -⟩ :=
      (r.resizedBoard name t (r.allowedSize name size)).rerouted_frame none
    rw [hcontent]
    refine ⟨?_, hfits.isRecordable_rerouted ht.wires none⟩
    rw [hboard]
    exact hchips

/-! ## §4. Operations. -/

/-- What can be done with a registry. -/
inductive Operation where
  | newType (name : Name)
  | setSize (name : Name) (size : Vec)
  | setPort (name : Name) (position : Nat) (port : String) (output : Bool)
  | addConstant (name : Name) (constant : String)
  | removeConstant (name : Name) (constant : String)
  | setContent (name : Name) (content : Content)
  | setBaseType (name : Name)
  | removeType (name : Name)
  | reset
  | sync

/-- Contents can be recorded, and there is room for the boards of resized types. -/
def Operation.IsAdmissible (r : Registry σ) : Operation → Prop
  | setSize name size => isStandard name = false → r.HasRoom name size
  | setContent _ content => content.IsRecordable
  | _ => True

/-- Whether something was done, and the registry after it. -/
def done {α : Type} (o : Outcome σ α) : Outcome σ Unit := (o.1.map fun _ => (), o.2)

variable [TypeStore σ]

/-- Carries out an operation. -/
def apply (r : Registry σ) : Operation → Outcome σ Unit
  | .newType name => done (r.newType name)
  | .setSize name size => done (r.setSize name size)
  | .setPort name position port output => done (r.setPort name position port output)
  | .addConstant name constant => done (r.addConstant name constant)
  | .removeConstant name constant => done (r.removeConstant name constant)
  | .setContent name content => done (r.setContent name content)
  | .setBaseType name => (.ok (), { r with base := name })
  | .removeType name => done (r.removeType name)
  | .reset => r.reset
  | .sync => done r.sync

/-- The types that an operation defines or forgets. -/
def Operation.touched (r : Registry σ) : Operation → List Name
  | newType name | setSize name _ | setPort name _ _ _ | addConstant name _
  | removeConstant name _ | setContent name _ => if isStandard name then [] else [name]
  | removeType name => if r.isCustom name then [name] else []
  | reset => r.custom.keys
  | setBaseType _ | sync => []

/-- What an operation makes of the definition that its type has. -/
def Operation.edit (r : Registry σ) : Operation → ChipType → ChipType
  | setSize name size, t => r.resized name t (r.allowedSize name size)
  | setPort _ position port output, t =>
    let port := ChipType.spelled port
    let ports := t.ports output
    if position < ports.length ∧ (port = "" ∨ port ∉ ports) then
      if output then { t with outputs := ports.set position port }
      else { t with inputs := ports.set position port }
    else t
  | addConstant _ constant, t => { t with constants := t.constants ++ [constant] }
  | removeConstant _ constant, t =>
    { t with constants := t.constants.filter (· ≠ ChipType.spelled constant) }
  | setContent _ content, t => { t with content }
  | _, t => t

/-- The definition that an operation leaves of the types that it touches. -/
def Operation.left (r : Registry σ) (op : Operation) : Option ChipType :=
  match op with
  | newType name | setSize name _ | setPort name _ _ _ | addConstant name _
  | removeConstant name _ | setContent name _ => some (op.edit r (r.types.get name)).canonical
  | setBaseType _ | removeType _ | reset | sync => none

/-- The ways in which an operation may change a registry, with the types that it touches and the
definition that it leaves of them. -/
inductive Change (r : Registry σ) : List Name → Option ChipType → Outcome σ Unit → Prop where
  | same (base : Name) (left : Option ChipType) : Change r [] left (.ok (), { r with base })
  | defined {name : Name} {t : ChipType} (custom : isStandard name = false)
      (content : t.content.IsRecordable) : Change r [name] (some t.canonical) (r.put name t)
  | removed {names : List Name} (custom : ∀ name ∈ names, r.isCustom name = true) :
      Change r names none (r.removeTypes names)
  | synced : Change r [] none (done r.sync)

/-- A change of a custom type defines it. -/
theorem done_change {α : Type} (name : Name) (refusal : α) (f : ChipType → ChipType × α) :
    done (r.change name refusal f)
      = if isStandard name then (.ok (), r) else r.put name (f (r.types.get name)).1 := by
  unfold change
  split
  · rfl
  · cases f (r.types.get name) with
    | mk t a =>
      unfold done
      dsimp only
      cases r.put name t with
      | mk result after => cases result <;> rfl

/-- The type gets the definition and the answer is given, unless the definition cannot be saved. -/
structure Defines {α : Type} (r : Registry σ) (name : Name) (t : ChipType) (answer : α)
    (o : Outcome σ α) : Prop where
  saved : ∀ store, TypeStore.save r.store name t = (.ok (), store) →
    o = (.ok answer, { r with store, custom := r.custom.insert name t })
  failed : ∀ e store, TypeStore.save r.store name t = (.error e, store) →
    o = (.error e, { r with store })

/-- A change of a custom type defines what was made of its definition. -/
theorem defines_change {α : Type} {name : Name} (hname : isStandard name = false) (refusal : α)
    (f : ChipType → ChipType × α) : Defines r name (f (r.types.get name)).1.canonical
      (f (r.types.get name)).2 (r.change name refusal f) := by
  constructor
  case saved =>
    intro store hsave
    simp [change, hname, put, hsave, Except.map]
  case failed =>
    intro e store hsave
    simp [change, hname, put, hsave, Except.map]

theorem change_of_change {α : Type} {name : Name} {refusal : α} {f : ChipType → ChipType × α}
    {t : ChipType} (ht : (f (r.types.get name)).1 = t)
    (h : isStandard name = false → t.content.IsRecordable) :
    Change r (if isStandard name then [] else [name]) (some t.canonical)
      (done (r.change name refusal f)) := by
  rw [done_change, ht]
  split
  · exact .same r.base _
  · rename_i hname
    rw [Bool.not_eq_true] at hname
    exact .defined hname (h hname)

theorem change_of_removeType (name : Name) :
    Change r (if r.isCustom name then [name] else []) none (done (r.removeType name)) := by
  by_cases hcustom : r.isCustom name = true
  · rw [if_pos hcustom]
    have hdone : done (r.removeType name) = r.removeTypes [name] := by
      unfold removeTypes
      cases r.removeType name with
      | mk result after => cases result <;> rfl
    rw [hdone]
    exact .removed (List.forall_mem_singleton.2 hcustom)
  · rw [if_neg hcustom]
    have hdone : done (r.removeType name) = (.ok (), r) := by
      unfold removeType
      rw [if_neg hcustom]
      rfl
    rw [hdone]
    exact .same r.base none

/-- What an operation does. -/
theorem change_of_apply (hr : AllDefinable r.custom) {op : Operation} (h : op.IsAdmissible r) :
    Change r (op.touched r) (op.left r) (r.apply op) := by
  have hcontent : ∀ name, (r.types.get name).content.IsRecordable := fun name => (hr.get name).2
  cases op with
  | newType name => exact change_of_change rfl fun _ => hcontent name
  | setSize name size =>
    exact change_of_change rfl fun hname => hr.content_resized (hcontent name) (h hname)
  | setPort name position port output =>
    refine change_of_change ?_ fun _ => ?_
    · unfold Operation.edit
      dsimp only
      simp only [Bool.and_eq_true, decide_eq_true_eq, Bool.or_eq_true, String.isEmpty_iff,
        Bool.not_eq_true', List.contains_eq_mem, decide_eq_false_iff_not]
      split <;> rfl
    · unfold Operation.edit
      dsimp only
      split
      · split <;> exact hcontent name
      · exact hcontent name
  | addConstant name constant => exact change_of_change rfl fun _ => hcontent name
  | removeConstant name constant =>
    unfold apply removeConstant
    exact change_of_change rfl fun _ => hcontent name
  | setContent name content => exact change_of_change rfl fun _ => h
  | setBaseType name => exact .same name none
  | removeType name => exact change_of_removeType name
  | reset => exact .removed fun name hname => Table.contains_iff.2 (Table.mem_keys_iff.1 hname)
  | sync => exact .synced

end Registry

end LogicBoard
