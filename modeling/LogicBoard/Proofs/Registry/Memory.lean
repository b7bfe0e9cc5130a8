/-
  LogicBoard.Proofs.Registry.Memory
  ────────────────────────────────
  **REGISTRY AND STORE IN STEP.**

  With a store in memory, nothing is ever refused by the store, and nobody
  else changes it.  So the records are at all times those of the custom
  types: a change is written as soon as it is made, and what is written can
  be read back.

  Main statements:
    • `apply_mirrors` — an operation keeps records and types the same,
    • `memory_inStep` — after every operation of every run, the store holds
      exactly the custom types, and these are canonical.
-/
import LogicBoard.Proofs.Registry.Operation
import LogicBoard.Store.Memory

namespace LogicBoard.Registry

/-! ## §1. Records and types. -/

/-- The records are those of the custom types, which are definitions that can be held. -/
structure Mirrors (r : Registry MemoryStore) : Prop where
  definable : AllDefinable r.custom
  records : r.store.records = r.custom.mapValues ChipType.recordText

variable {r : Registry MemoryStore}

/-- Nothing keeps a definition from being stored. -/
theorem put_memory (r : Registry MemoryStore) (name : Name) (t : ChipType) :
    r.put name t = (.ok (), { r with
      store := r.store.save name t.canonical
      custom := r.custom.insert name t.canonical }) := rfl

theorem Mirrors.put (h : r.Mirrors) {name : Name} {t : ChipType} (hname : isStandard name = false)
    (hcontent : t.content.IsRecordable) : ∃ r', r.put name t = (.ok (), r') ∧ r'.Mirrors := by
  refine ⟨_, put_memory r name t, ?_⟩
  constructor
  case definable => exact h.definable.insert (definable_canonical hname hcontent)
  case records =>
    show r.store.records.insert name t.canonical.recordText = _
    rw [h.records, Table.mapValues_insert]

theorem Mirrors.removeType (h : r.Mirrors) (name : Name) :
    ∃ removed r', r.removeType name = (.ok removed, r') ∧ r'.Mirrors := by
  unfold Registry.removeType
  split
  · refine ⟨true, _, rfl, ?_⟩
    constructor
    case definable => exact h.definable.erase name
    case records =>
      show r.store.records.erase name = _
      rw [h.records, Table.mapValues_erase]
  · exact ⟨false, r, rfl, h⟩

theorem Mirrors.removeTypes (h : r.Mirrors) (names : List Name) :
    ∃ r', r.removeTypes names = (.ok (), r') ∧ r'.Mirrors := by
  induction names generalizing r with
  | nil => exact ⟨r, rfl, h⟩
  | cons name rest ih =>
    obtain ⟨removed, r₁, hremove, hr₁⟩ := h.removeType name
    obtain ⟨r₂, hrest, hr₂⟩ := ih hr₁
    refine ⟨r₂, ?_, hr₂⟩
    unfold Registry.removeTypes
    rw [hremove]
    exact hrest

/-! ## §2. Operations. -/

/-- An operation is carried out, and records and types stay the same. -/
theorem apply_mirrors (h : r.Mirrors) {op : Operation} (hop : op.IsAdmissible r) :
    ∃ r', r.apply op = (.ok (), r') ∧ r'.Mirrors := by
  have hchange := change_of_apply h.definable hop
  generalize r.apply op = o, op.touched r = names, op.left r = left at hchange
  cases hchange with
  | same base left => exact ⟨_, rfl, h.definable, h.records⟩
  | defined hname hcontent => exact h.put hname hcontent
  | removed custom => exact h.removeTypes names
  | synced => exact ⟨_, rfl, h.definable, h.records⟩

universe u

variable {σ : Type u} [TypeStore σ]

/-- Carries out operations in order, up to one that fails. -/
def run (r : Registry σ) : List Operation → Outcome σ Unit
  | [] => (.ok (), r)
  | op :: rest =>
    match r.apply op with
    | (.error e, r) => (.error e, r)
    | (.ok (), r) => r.run rest

/-- Every operation is admissible when its turn comes. -/
def Admits (r : Registry σ) : List Operation → Prop
  | [] => True
  | op :: rest => op.IsAdmissible r ∧ (r.apply op).2.Admits rest

theorem run_mirrors {r : Registry MemoryStore} (h : r.Mirrors) {ops : List Operation}
    (hops : r.Admits ops) : ∃ r', r.run ops = (.ok (), r') ∧ r'.Mirrors := by
  induction ops generalizing r with
  | nil => exact ⟨r, rfl, h⟩
  | cons op rest ih =>
    obtain ⟨r₁, happly, hr₁⟩ := apply_mirrors h hops.1
    have hrest : r₁.Admits rest := by
      have := hops.2
      rwa [happly] at this
    obtain ⟨r₂, hrun, hr₂⟩ := ih hr₁ hrest
    refine ⟨r₂, ?_, hr₂⟩
    unfold run
    rw [happly]
    exact hrun

/-! ## §3. In step. -/

/-- What is to hold after every operation. -/
structure IsInStep (r : Registry MemoryStore) : Prop where
  /-- There is a record for exactly the custom types. -/
  names : r.store.records.keys = r.custom.keys
  /-- A record is read back as the type, and there is nothing to read under other names. -/
  load : ∀ name, r.store.load name = .ok (r.custom.find? name)
  /-- All records together are read back as all types. -/
  loadAll : r.store.loadAll = .ok r.custom.entries
  canonical : ∀ name t, r.custom.find? name = some t → t.IsCanonical
  own : ∀ name, r.isCustom name = true → isStandard name = false
  /-- The standard types are those of the library. -/
  standard : ∀ name t, Library.standard.find? name = some t → r.types.get name = t

theorem Mirrors.isInStep {r : Registry MemoryStore} (h : r.Mirrors) : r.IsInStep := by
  have hread : ∀ name t, r.custom.find? name = some t → ∀ path,
      ChipType.ofRecordText path t.recordText = .ok t := fun name t ht path =>
    ChipType.ofRecordText_recordText (h.definable name t ht).isRecordable path
  constructor
  case names => rw [h.records, Table.keys_mapValues]
  case load =>
    intro name
    unfold MemoryStore.load
    rw [h.records, Table.find?_mapValues]
    cases ht : r.custom.find? name with
    | none => rfl
    | some t =>
      show (ChipType.ofRecordText name.text t.recordText).map some = .ok (some t)
      rw [hread name t ht]
      rfl
  case loadAll =>
    unfold MemoryStore.loadAll
    rw [h.records]
    show (r.custom.entries.map fun e => (e.1, e.2.recordText)).mapM _ = pure r.custom.entries
    refine Fallible.mapM_map fun e he => ?_
    rw [hread e.1 e.2 (Table.find?_eq_some_iff.2 he)]
    rfl
  case canonical => exact fun name t ht => (h.definable name t ht).canonical
  case own =>
    intro name hname
    obtain ⟨t, ht⟩ := Table.contains_iff.1 hname
    exact (h.definable name t ht).name
  case standard =>
    intro name t ht
    unfold types
    dsimp only
    rw [ht]
    rfl

/-- A registry whose types are kept in memory is in step with its store after every operation, and
no operation fails. -/
theorem memory_inStep (settings : Settings) :
    ∃ r : Registry MemoryStore, Registry.load settings .empty = .ok r ∧
      ∀ ops, r.Admits ops → ∃ r', r.run ops = (.ok (), r') ∧ r'.IsInStep := by
  let opened : Registry MemoryStore :=
    ⟨.empty, .ofText settings.editor.baseType, settings.editor.baseMaxSize, settings.route, .empty⟩
  have hopened : opened.Mirrors := by
    refine ⟨fun name t ht => ?_, rfl⟩
    rw [Table.find?_empty] at ht
    exact absurd ht (by simp)
  refine ⟨opened, rfl, fun ops hops => ?_⟩
  obtain ⟨r', hrun, hr'⟩ := run_mirrors hopened hops
  exact ⟨r', hrun, hr'.isInStep⟩

/-! ## §4. A short run. -/

/-- A gate far outside of a small board, with a constant of its own and a wire from the edge. -/
def gateContent : Content :=
  .ofChips .one
    [⟨⟨"gate"⟩, "", ⟨"and"⟩, ⟨70, 70⟩, .ofList [("VALUE", .number (.int 3))], .r1⟩]
    [.between ⟨⟨"cell"⟩, false, "A"⟩ ⟨⟨"gate"⟩, false, "A"⟩ 0]

/-- A type gets a content, another size, an output and a constant slot; a standard type is left
alone. -/
def gateRun : List Operation :=
  [.setBaseType ⟨"cell"⟩, .newType ⟨"cell"⟩, .setContent ⟨"cell"⟩ gateContent,
   .setSize ⟨"cell"⟩ ⟨3, 2⟩, .setPort ⟨"cell"⟩ 2 " carry " true, .addConstant ⟨"cell"⟩ " mode ",
   .addConstant ⟨"and"⟩ "mode", .sync]

theorem isRecordable_gateContent : gateContent.IsRecordable := by
  have hgate : Name.IsFolded ⟨"gate"⟩ := ⟨"gate", by decide +kernel⟩
  have hand : Name.IsFolded ⟨"and"⟩ := ⟨"and", by decide +kernel⟩
  have hcell : Name.IsFolded ⟨"cell"⟩ := ⟨"cell", by decide +kernel⟩
  constructor
  · refine List.forall_mem_singleton.2 ⟨hgate, hand, ⟨by decide, by decide⟩, ?_⟩
    exact List.forall_mem_singleton.2 ⟨by decide, by decide⟩
  · exact List.forall_mem_singleton.2 ⟨by decide, by simp [Wire.between], hcell, hgate⟩

/-- The run is admissible, and the type has got what it was given, in its one spelling. -/
theorem gateRun_inStep : ∃ r : Registry MemoryStore, Registry.load {} .empty = .ok r ∧
    r.Admits gateRun ∧ ∃ r', r.run gateRun = (.ok (), r') ∧ r'.IsInStep ∧
      (r'.types.get ⟨"cell"⟩).outputs = ["R", "", "CARRY", ""] ∧
      (r'.types.get ⟨"cell"⟩).constants = ["MODE"] := by
  obtain ⟨r, hload, hruns⟩ := memory_inStep {}
  have hadmits : r.Admits gateRun := by
    obtain rfl := Except.ok.inj hload
    refine ⟨trivial, trivial, isRecordable_gateContent, fun _ => ?_, trivial, trivial, trivial,
      trivial, trivial⟩
    constructor <;> constructor <;> decide +kernel
  obtain ⟨r', hrun, hstep⟩ := hruns gateRun hadmits
  refine ⟨r, hload, hadmits, r', hrun, hstep, ?_⟩
  obtain rfl := Except.ok.inj hload
  obtain rfl := congrArg Prod.snd hrun
  exact ⟨by decide +kernel, by decide +kernel⟩

end LogicBoard.Registry
