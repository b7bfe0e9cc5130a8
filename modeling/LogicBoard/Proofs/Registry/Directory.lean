/-
  LogicBoard.Proofs.Registry.Directory
  ────────────────────────────────
  **A REGISTRY ON A DIRECTORY.**

  Others may change the directory as well.  So the types in memory need not
  be the types that are stored; but a registry always has in memory what it
  has last seen in the directory, and remembers the digests of just that.

  Main statements:
    • `Follows.load` — a new registry has the types that are stored,
    • `Follows.sync` — so has an old one after it has caught up,
    • `Follows.apply` — what an operation does to the types in memory and in
      the directory.
-/
import LogicBoard.Proofs.Registry.Operation
import LogicBoard.Proofs.Store.Requests

namespace LogicBoard.Registry

open DirectoryStore (IsDiskError digests)

/-! ## §1. Two tables. -/

/-- What the registry has in memory is what it has last seen in the directory. -/
structure Follows (r : Registry DirectoryStore) (s : DirectoryStore) : Prop where
  store : r.store = { s with seen := digests r.custom }
  definable : AllDefinable r.custom
  names : ∀ name t, r.custom.find? name = some t → s.IsRecordName name

/-- The directory holds the records of these types, which can be held in memory. -/
structure Supplies (s : DirectoryStore) (types : TypeTable) : Prop where
  stores : s.Stores types
  definable : AllDefinable types

/-- The registry after others have changed the disk. -/
def withDisk (r : Registry DirectoryStore) (disk : Disk) : Registry DirectoryStore :=
  { r with store := { r.store with disk } }

theorem Follows.withDisk {r : Registry DirectoryStore} {s : DirectoryStore} (h : r.Follows s)
    (disk : Disk) : (r.withDisk disk).Follows { s with disk } where
  store := congrArg (fun s => { s with disk }) h.store
  definable := h.definable
  names := h.names

/-- What becomes of the types in memory, and of those in the directory, if types are touched and a
definition, or none, is left of them. -/
structure Effect (r : Registry DirectoryStore) (types : TypeTable) (names : List Name)
    (left : Option ChipType) (r' : Registry DirectoryStore) (types' : TypeTable) : Prop where
  /-- It is left in memory and in the directory. -/
  touched : ∀ name ∈ names, r'.custom.find? name = left ∧ types'.find? name = left
  /-- The directory keeps all other types. -/
  stored : ∀ name, name ∉ names → types'.find? name = types.find? name
  /-- Other types in memory are kept or taken from the directory. -/
  memory : ∀ name, name ∉ names →
    r'.custom.find? name = r.custom.find? name ∨ r'.custom.find? name = types.find? name

variable {r : Registry DirectoryStore} {s : DirectoryStore} {types : TypeTable}

theorem effect_refl (r : Registry DirectoryStore) (types : TypeTable) (base : Name)
    (left : Option ChipType) : Effect r types [] left { r with base } types where
  touched := by simp
  stored := fun _ _ => rfl
  memory := fun _ _ => Or.inl rfl

theorem effect_insert {r' : Registry DirectoryStore} {name : Name} {t : ChipType}
    (h : r'.custom = r.custom.insert name t) :
    Effect r types [name] (some t) r' (types.insert name t) := by
  constructor
  case touched =>
    intro m hm
    obtain rfl := List.mem_singleton.1 hm
    rw [h, Table.find?_insert, Table.find?_insert, if_pos rfl]
    exact ⟨rfl, if_pos rfl⟩
  case stored =>
    intro m hm
    rw [Table.find?_insert, if_neg (by simpa [eq_comm] using hm)]
  case memory =>
    intro m hm
    exact Or.inl (by rw [h, Table.find?_insert, if_neg (by simpa [eq_comm] using hm)])

theorem effect_erase {r' : Registry DirectoryStore} {name : Name}
    (h : r'.custom = r.custom.erase name) : Effect r types [name] none r' (types.erase name) := by
  constructor
  case touched =>
    intro m hm
    obtain rfl := List.mem_singleton.1 hm
    rw [h, Table.find?_erase, Table.find?_erase, if_pos rfl]
    exact ⟨rfl, if_pos rfl⟩
  case stored =>
    intro m hm
    rw [Table.find?_erase, if_neg (by simpa [eq_comm] using hm)]
  case memory =>
    intro m hm
    exact Or.inl (by rw [h, Table.find?_erase, if_neg (by simpa [eq_comm] using hm)])

/-- One type after the other is touched. -/
theorem Effect.cons {r₁ r₂ : Registry DirectoryStore} {types₁ types₂ : TypeTable} {name : Name}
    {rest : List Name} {left : Option ChipType} (h : Effect r types [name] left r₁ types₁)
    (hrest : Effect r₁ types₁ rest left r₂ types₂) :
    Effect r types (name :: rest) left r₂ types₂ := by
  constructor
  case touched =>
    intro m hm
    by_cases hlater : m ∈ rest
    · exact hrest.touched m hlater
    · -- The type is touched now and not again, so what is left of it stays on both sides.
      obtain rfl : m = name := (List.mem_cons.1 hm).resolve_right hlater
      obtain ⟨hcustom, htypes⟩ := h.touched m (List.mem_singleton_self m)
      refine ⟨?_, (hrest.stored m hlater).trans htypes⟩
      rcases hrest.memory m hlater with hkept | htaken
      · exact hkept.trans hcustom
      · exact htaken.trans htypes
  case stored =>
    intro m hm
    obtain ⟨hne, hlater⟩ := not_or.1 (mt List.mem_cons.2 hm)
    rw [hrest.stored m hlater, h.stored m (by simpa using hne)]
  case memory =>
    intro m hm
    obtain ⟨hne, hlater⟩ := not_or.1 (mt List.mem_cons.2 hm)
    have hstored := h.stored m (by simpa using hne)
    rcases hrest.memory m hlater with hkept | htaken
    · rw [hkept]
      exact h.memory m (by simpa using hne)
    · rw [htaken, hstored]
      exact Or.inr rfl

/-! ## §2. Defining and forgetting. -/

/-- A definition is held that the store has seen. -/
theorem Follows.insert (h : r.Follows s) {name : Name} {t : ChipType} (ht : Definable name t)
    (hrecord : s.IsRecordName name) (disk : Disk) :
    Follows { r with
        custom := r.custom.insert name t
        store := { s with
          disk
          seen := (digests r.custom).insert name (Digest.ofText t.recordText) } }
      { s with disk } := by
  constructor
  case store =>
    unfold digests
    rw [Table.mapValues_insert]
  case definable => exact h.definable.insert ht
  case names =>
    intro other u hu
    rw [Table.find?_insert] at hu
    split at hu
    · rename_i heq
      exact heq ▸ hrecord
    · exact h.names other u hu

/-- A definition is held no longer that the store does not see any more. -/
theorem Follows.erase (h : r.Follows s) (name : Name) (disk : Disk) :
    Follows { r with
        custom := r.custom.erase name
        store := { s with disk, seen := (digests r.custom).erase name } }
      { s with disk } := by
  constructor
  case store =>
    unfold digests
    rw [Table.mapValues_erase]
  case definable => exact h.definable.erase name
  case names =>
    intro other u hu
    rw [Table.find?_erase] at hu
    split at hu
    · exact absurd hu (by simp)
    · exact h.names other u hu

/-- A definition goes into memory and into the directory. -/
theorem Follows.put (h : r.Follows s) (hs : Supplies s types) {name : Name} {t : ChipType}
    (hname : isStandard name = false) (hrecord : s.IsRecordName name)
    (hcontent : t.content.IsRecordable) (hdisk : ¬ IsDiskError (r.put name t).1) :
    ∃ r' disk types', r.put name t = (.ok (), r') ∧ r'.Follows { s with disk } ∧
      Supplies { s with disk } types' ∧ Effect r types [name] (some t.canonical) r' types' := by
  have ht : Definable name t.canonical := definable_canonical hname hcontent
  unfold Registry.put at hdisk ⊢
  dsimp only [TypeStore.save] at hdisk ⊢
  have hsave := DirectoryStore.not_isDiskError_of hdisk (x := r.store.save name t.canonical)
    fun e after herror => by rw [herror]
  rw [h.store] at hsave ⊢
  obtain ⟨disk, hsaved, hstores⟩ :=
    (hs.stores.see (digests r.custom)).save hrecord ht.isRecordable hsave
  rw [hsaved]
  refine ⟨_, disk, types.insert name t.canonical, rfl, h.insert ht hrecord disk,
    ⟨hstores.see s.seen, hs.definable.insert ht⟩, effect_insert rfl⟩

/-- A type that is known is forgotten in memory and in the directory. -/
theorem Follows.removeType (h : r.Follows s) (hs : Supplies s types) {name : Name}
    (hrecord : s.IsRecordName name)
    (hknown : r.custom.find? name = none → types.find? name = none)
    (hdisk : ¬ IsDiskError (r.removeType name).1) :
    ∃ removed r' disk types', r.removeType name = (.ok removed, r') ∧ r'.Follows { s with disk } ∧
      Supplies { s with disk } types' ∧ Effect r types [name] none r' types' := by
  unfold Registry.removeType at hdisk ⊢
  by_cases hcustom : r.isCustom name = true
  · rw [if_pos hcustom] at hdisk ⊢
    dsimp only [TypeStore.remove] at hdisk ⊢
    have hremove := DirectoryStore.not_isDiskError_of hdisk (x := r.store.remove name)
      fun e after herror => by rw [herror]; rfl
    rw [h.store] at hremove ⊢
    obtain ⟨disk, hremoved, hstores⟩ := (hs.stores.see (digests r.custom)).remove hrecord hremove
    rw [hremoved]
    refine ⟨true, _, disk, types.erase name, rfl, h.erase name disk,
      ⟨hstores.see s.seen, hs.definable.erase name⟩, effect_erase rfl⟩
  · rw [if_neg hcustom]
    refine ⟨false, r, s.disk, types, rfl, h, hs, ?_, fun _ _ => rfl, fun _ _ => Or.inl rfl⟩
    intro m hm
    obtain rfl := List.mem_singleton.1 hm
    have hnone : r.custom.find? m = none := by
      simpa [Registry.isCustom, Table.contains] using hcustom
    exact ⟨hnone, hknown hnone⟩

/-- Types that are known are forgotten one after the other. -/
theorem Follows.removeTypes (h : r.Follows s) (hs : Supplies s types) {names : List Name}
    (hrecord : ∀ name ∈ names, s.IsRecordName name)
    (hknown : ∀ name ∈ names, r.custom.find? name = none → types.find? name = none)
    (hdisk : ¬ IsDiskError (r.removeTypes names).1) :
    ∃ r' disk types', r.removeTypes names = (.ok (), r') ∧ r'.Follows { s with disk } ∧
      Supplies { s with disk } types' ∧ Effect r types names none r' types' := by
  induction names generalizing r s types with
  | nil => exact ⟨r, s.disk, types, rfl, h, hs, effect_refl r types r.base none⟩
  | cons name rest ih =>
    obtain ⟨hrecord₀, hrecord⟩ := List.forall_mem_cons.1 hrecord
    obtain ⟨hknown₀, hknown⟩ := List.forall_mem_cons.1 hknown
    unfold Registry.removeTypes at hdisk ⊢
    have hfirst := DirectoryStore.not_isDiskError_of hdisk (x := r.removeType name)
      fun e after herror => by rw [herror]
    obtain ⟨removed, r₁, disk₁, types₁, hremove, h₁, hs₁, heffect⟩ :=
      h.removeType hs hrecord₀ hknown₀ hfirst
    rw [hremove] at hdisk ⊢
    have hknown₁ : ∀ m ∈ rest, r₁.custom.find? m = none → types₁.find? m = none := by
      intro m hm hnone
      by_cases heq : m = name
      · exact (heffect.touched m (by simp [heq])).2
      · have hstored := heffect.stored m (by simpa using heq)
        rcases heffect.memory m (by simpa using heq) with hkept | htaken
        · rw [hstored, hknown m hm (hkept ▸ hnone)]
        · rw [hstored, ← htaken, hnone]
    obtain ⟨r₂, disk₂, types₂, hrun, h₂, hs₂, heffect₂⟩ := ih h₁ hs₁ hrecord hknown₁ hdisk
    exact ⟨r₂, disk₂, types₂, hrun, h₂, hs₂, heffect.cons heffect₂⟩

/-! ## §3. Taking over. -/

/-- One type is taken over from the directory. -/
theorem Follows.syncType (h : r.Follows s) (hs : Supplies s types) {name : Name}
    (hname : isStandard name = false) (hrecord : s.IsRecordName name)
    (hdisk : ¬ IsDiskError (r.syncType name).1) :
    ∃ r', r.syncType name = (.ok (), r') ∧ r'.Follows s ∧
      ∀ m, r'.custom.find? m = if m = name then types.find? m else r.custom.find? m := by
  unfold Registry.syncType at hdisk ⊢
  rw [if_neg (by simp [hname])] at hdisk ⊢
  dsimp only [TypeStore.load] at hdisk ⊢
  have hload := DirectoryStore.not_isDiskError_of hdisk (x := r.store.load name)
    fun e after herror => by rw [herror]
  rw [h.store] at hload ⊢
  rw [(hs.stores.see (digests r.custom)).load hrecord hload]
  cases ht : types.find? name with
  | some t =>
    have hdefinable := hs.definable name t ht
    dsimp only
    rw [ChipType.canonical_eq hdefinable.canonical]
    refine ⟨_, rfl, h.insert hdefinable hrecord s.disk, fun m => ?_⟩
    rw [Table.find?_insert]
    by_cases heq : name = m
    · rw [if_pos heq, if_pos heq.symm, ← heq, ht]
    · rw [if_neg heq, if_neg (Ne.symm heq)]
  | none =>
    refine ⟨_, rfl, h.erase name s.disk, fun m => ?_⟩
    rw [Table.find?_erase]
    by_cases heq : name = m
    · rw [if_pos heq, if_pos heq.symm, ← heq, ht]
    · rw [if_neg heq, if_neg (Ne.symm heq)]

/-- Types are taken over from the directory one after the other. -/
theorem Follows.syncTypes (h : r.Follows s) (hs : Supplies s types) {names : List Name}
    (hnames : ∀ name ∈ names, isStandard name = false ∧ s.IsRecordName name)
    (hdisk : ¬ IsDiskError (r.syncTypes names).1) :
    ∃ r', r.syncTypes names = (.ok (), r') ∧ r'.Follows s ∧
      ∀ m, r'.custom.find? m = if m ∈ names then types.find? m else r.custom.find? m := by
  induction names generalizing r with
  | nil => exact ⟨r, rfl, h, by simp⟩
  | cons name rest ih =>
    obtain ⟨⟨hname, hrecord⟩, hrest⟩ := List.forall_mem_cons.1 hnames
    unfold Registry.syncTypes at hdisk ⊢
    have hfirst := DirectoryStore.not_isDiskError_of hdisk (x := r.syncType name)
      fun e after herror => by rw [herror]
    obtain ⟨r₁, hsync, h₁, hcustom₁⟩ := h.syncType hs hname hrecord hfirst
    rw [hsync] at hdisk ⊢
    obtain ⟨r₂, hrun, h₂, hcustom₂⟩ := ih h₁ hrest hdisk
    refine ⟨r₂, hrun, h₂, fun m => ?_⟩
    rw [hcustom₂, hcustom₁]
    by_cases heq : m = name <;> by_cases hlater : m ∈ rest <;> simp [heq, hlater]

theorem done_sync (r : Registry DirectoryStore) : done r.sync
    = match r.store.changes with
      | .error e => (.error e, r)
      | .ok names => r.syncTypes names := by
  unfold done Registry.sync
  dsimp only [TypeStore.changes]
  cases r.store.changes with
  | error e => rfl
  | ok names =>
    dsimp only
    cases r.syncTypes names with
    | mk result after => cases result <;> rfl

theorem Follows.not_isDiskError_scan (h : r.Follows s) (hdisk : ¬ IsDiskError (done r.sync).1) :
    ¬ IsDiskError s.scan := by
  intro hscan
  obtain ⟨path, e, hchanges⟩ :=
    DirectoryStore.isDiskError_changes (s := { s with seen := digests r.custom }) hscan
  rw [done_sync, h.store, hchanges] at hdisk
  exact hdisk ⟨path, e, rfl⟩

/-- A registry catches up with the directory.  It keeps only types whose digests are as it has seen
them. -/
theorem Follows.sync (h : r.Follows s) (hs : Supplies s types)
    (hdisk : ¬ IsDiskError (done r.sync).1) :
    ∃ r', done r.sync = (.ok (), r') ∧ r'.Follows s ∧
      ∀ m, r'.custom.find? m = types.find? m ∨ (r'.custom.find? m = r.custom.find? m ∧
        (digests r.custom).find? m = (digests types).find? m) := by
  have hscan := h.not_isDiskError_scan hdisk
  obtain ⟨names, hchanges, hmem⟩ := (hs.stores.see (digests r.custom)).changes hscan
  rw [done_sync, h.store, hchanges] at hdisk ⊢
  have hnames : ∀ name ∈ names, isStandard name = false ∧ s.IsRecordName name := by
    intro name hname
    cases hcustom : r.custom.find? name with
    | some t => exact ⟨(h.definable name t hcustom).name, h.names name t hcustom⟩
    | none =>
      cases htypes : types.find? name with
      | some t =>
        exact ⟨(hs.definable name t htypes).name, (hs.stores.recordable name t htypes).1⟩
      | none =>
        refine absurd ?_ ((hmem name).1 hname)
        unfold digests
        rw [Table.find?_mapValues, Table.find?_mapValues, hcustom, htypes]
  obtain ⟨r', hsync, h', hcustom⟩ := h.syncTypes hs hnames hdisk
  refine ⟨r', hsync, h', fun m => ?_⟩
  rw [hcustom]
  split
  · exact Or.inl rfl
  · rename_i hm
    exact Or.inr ⟨rfl, by simpa using mt (hmem m).2 hm⟩

/-- If different records have different digests, then all types are those in the directory. -/
theorem Follows.custom_eq (h : r.Follows s) (hs : Supplies s types)
    (hdistinct : ∀ m t u, r.custom.find? m = some t → types.find? m = some u →
      Digest.ofText t.recordText = Digest.ofText u.recordText → t.recordText = u.recordText)
    {r' : Registry DirectoryStore}
    (hr' : ∀ m, r'.custom.find? m = types.find? m ∨ (r'.custom.find? m = r.custom.find? m ∧
      (digests r.custom).find? m = (digests types).find? m)) : r'.custom = types := by
  refine Table.ext_find? fun m => ?_
  rcases hr' m with htaken | ⟨hkept, hdigest⟩
  · exact htaken
  · rw [hkept]
    unfold digests at hdigest
    rw [Table.find?_mapValues, Table.find?_mapValues] at hdigest
    cases hcustom : r.custom.find? m with
    | none =>
      rw [hcustom] at hdigest
      exact (Option.map_eq_none_iff.1 hdigest.symm).symm
    | some t =>
      rw [hcustom] at hdigest
      obtain ⟨u, hu, hsame⟩ := Option.map_eq_some_iff.1 hdigest.symm
      have htext := hdistinct m t u hcustom hu hsame.symm
      rw [hu, ChipType.recordText_injective (h.definable m t hcustom).isRecordable
        (hs.definable m u hu).isRecordable htext]

/-- A new registry has the types that are stored. -/
theorem Supplies.load (hs : Supplies s types) (hscan : ¬ IsDiskError s.scan) (settings : Settings) :
    ∃ r, Registry.load settings s = .ok r ∧ r.custom = types ∧ r.Follows s := by
  have hcustom : Table.ofList ((types.entries.filter fun e => !isStandard e.1).map
      fun e => (e.1, e.2.canonical)) = types := by
    have hentries : ∀ e ∈ types.entries, Definable e.1 e.2 := fun e he =>
      hs.definable e.1 e.2 (Table.find?_eq_some_iff.2 he)
    rw [List.filter_eq_self.2 fun e he => by simp [(hentries e he).name],
      List.map_congr_left (g := id) fun e he => by
        rw [ChipType.canonical_eq (hentries e he).canonical]
        rfl,
      List.map_id, Table.ofList_entries]
  unfold Registry.load
  dsimp only [TypeStore.loadAll]
  rw [hs.stores.loadAll hscan]
  refine ⟨_, rfl, hcustom, ?_⟩
  constructor
  case store => exact congrArg (fun types => { s with seen := digests types }) hcustom.symm
  case definable =>
    show AllDefinable (Table.ofList _)
    rw [hcustom]
    exact hs.definable
  case names =>
    intro name t ht
    replace ht : (Table.ofList _).find? name = some t := ht
    rw [hcustom] at ht
    exact (hs.stores.recordable name t ht).1

theorem not_isDiskError_of_load {settings : Settings}
    (hdisk : ¬ IsDiskError (Registry.load settings s)) : ¬ IsDiskError s.scan := by
  intro hscan
  obtain ⟨path, e, hload⟩ := DirectoryStore.isDiskError_loadAll hscan
  refine hdisk ⟨path, e, ?_⟩
  unfold Registry.load
  dsimp only [TypeStore.loadAll]
  cases hresult : s.loadAll with
  | mk result after =>
    rw [hresult] at hload
    obtain rfl : result = _ := hload
    rfl

/-! ## §4. Operations. -/

/-- What an operation does to the types in memory and in the directory. -/
theorem Follows.apply (h : r.Follows s) (hs : Supplies s types) {op : Operation}
    (hop : op.IsAdmissible r) (hrecord : ∀ name ∈ op.touched r, s.IsRecordName name)
    (hdisk : ¬ IsDiskError (r.apply op).1) :
    ∃ r' disk types', r.apply op = (.ok (), r') ∧ r'.Follows { s with disk } ∧
      Supplies { s with disk } types' ∧ Effect r types (op.touched r) (op.left r) r' types' := by
  have hchange := change_of_apply h.definable hop
  generalize r.apply op = o, op.touched r = names, op.left r = left at hchange hrecord hdisk
  cases hchange with
  | same base left =>
    exact ⟨_, s.disk, types, rfl, ⟨h.store, h.definable, h.names⟩, hs,
      effect_refl r types base left⟩
  | defined hname hcontent =>
    exact h.put hs hname (List.forall_mem_singleton.1 hrecord) hcontent hdisk
  | removed hcustom =>
    refine h.removeTypes hs hrecord (fun name hname hnone => ?_) hdisk
    obtain ⟨t, ht⟩ := Table.contains_iff.1 (hcustom name hname)
    exact absurd (hnone.symm.trans ht) (by simp)
  | synced =>
    obtain ⟨r', hsync, h', hcustom⟩ := h.sync hs hdisk
    refine ⟨r', s.disk, types, hsync, h', hs, by simp, fun _ _ => rfl, fun m _ => ?_⟩
    exact (hcustom m).symm.imp_left fun hkept => hkept.1

end LogicBoard.Registry
