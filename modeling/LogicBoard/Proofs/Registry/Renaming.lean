/-
  LogicBoard.Proofs.Registry.Renaming
  ────────────────────────────────
  **NAMING THE PORTS OF A TYPE.**

  A port gets a name, or the call is refused and the type stays as it is.  Of
  a type that is not a standard one the definition is saved in either case:
  the refused call defines a type that was not known, and writes a record.
  What it writes is the definition that the type had before, so no type looks
  different afterwards.

  Main statements:
    • `isRenamed_withPort` — a port that gets a name, and what stays,
    • `setPort_cases` — the answer of a call and the registry after it,
    • `setPort_memory`, `setPort_directory` — the records after it,
    • `setPort_exact` — both together.
-/
import LogicBoard.Proofs.Registry.Directory
import LogicBoard.Proofs.Registry.Export
import LogicBoard.Proofs.Registry.Resizing
import LogicBoard.Proofs.Store.Interchange

namespace LogicBoard

/-! ## §1. Definitions. -/

namespace ChipType

/-- The position exists, and the name is free on that side. -/
def MayName (t : ChipType) (output : Bool) (position : Nat) (port : String) : Prop :=
  position < (t.ports output).length ∧ (port = "" ∨ port ∉ t.ports output)

instance (t : ChipType) (output : Bool) (position : Nat) (port : String) :
    Decidable (t.MayName output position port) := inferInstanceAs (Decidable (_ ∧ _))

/-- The definition with another name for one port. -/
def withPort (t : ChipType) (output : Bool) (position : Nat) (port : String) : ChipType :=
  let ports := (t.ports output).set position port
  if output then { t with outputs := ports } else { t with inputs := ports }

/-- The definition differs in the name of one port. -/
structure IsRenamed (t' t : ChipType) (output : Bool) (position : Nat) (port : String) : Prop where
  entry : (t'.ports output)[position]? = some port
  entries : ∀ i, i ≠ position → (t'.ports output)[i]? = (t.ports output)[i]?
  opposite : t'.ports (!output) = t.ports (!output)
  /-- Ports with different names go on having different names. -/
  distinct : (t.namedPorts output).Nodup → (t'.namedPorts output).Nodup
  size : t'.size = t.size
  constants : t'.constants = t.constants
  content : t'.content = t.content
  code : t'.code = t.code
  kind : t'.kind = t.kind
  description : t'.description = t.description

variable {t : ChipType} {output : Bool} {position : Nat} {port : String}

theorem ports_withPort :
    (t.withPort output position port).ports output = (t.ports output).set position port := by
  cases output <;> rfl

theorem ports_withPort_not :
    (t.withPort output position port).ports (!output) = t.ports (!output) := by
  cases output <;> rfl

theorem MayName.nodup_namedPorts (h : t.MayName output position port)
    (hdistinct : (t.namedPorts output).Nodup) :
    ((t.withPort output position port).namedPorts output).Nodup := by
  obtain ⟨hposition, hfree⟩ := h
  -- The names are those of the other ports and the new one.
  have hothers : ((t.ports output).eraseIdx position).Sublist (t.ports output) :=
    List.eraseIdx_sublist _ _
  have hperm := (List.set_perm_cons_eraseIdx hposition port).filter (!·.isEmpty)
  unfold namedPorts at hdistinct ⊢
  rw [ports_withPort, hperm.nodup_iff]
  by_cases hempty : port = ""
  · rw [List.filter_cons_of_neg (by simp [hempty])]
    exact hdistinct.sublist (hothers.filter _)
  · have hnew : port ∉ t.ports output := hfree.resolve_left hempty
    rw [List.filter_cons_of_pos (by simp [hempty]), List.nodup_cons]
    exact ⟨fun hmem => hnew (hothers.mem (List.mem_of_mem_filter hmem)),
      hdistinct.sublist (hothers.filter _)⟩

theorem isRenamed_withPort (h : t.MayName output position port) :
    (t.withPort output position port).IsRenamed t output position port := by
  constructor
  case entry => rw [ports_withPort, List.getElem?_set_self h.1]
  case entries =>
    intro i hi
    rw [ports_withPort, List.getElem?_set_ne (Ne.symm hi)]
  case opposite => exact ports_withPort_not
  case distinct => exact h.nodup_namedPorts
  case size => cases output <;> rfl
  case constants => cases output <;> rfl
  case content => cases output <;> rfl
  case code => cases output <;> rfl
  case kind => cases output <;> rfl
  case description => cases output <;> rfl

/-- A canonical definition stays canonical if the name is spelled as names are. -/
theorem IsCanonical.withPort (h : t.IsCanonical) (hport : IsSpelled port) :
    (t.withPort output position port).IsCanonical := by
  have hports : ∀ side, (t.withPort output position port).ports side = t.ports side ∨
      (t.withPort output position port).ports side = (t.ports side).set position port := by
    intro side
    by_cases hside : side = output
    · rw [hside]
      exact Or.inr ports_withPort
    · rw [Bool.eq_not_of_ne hside]
      exact Or.inl ports_withPort_not
  constructor
  case width => cases output <;> exact h.width
  case height => cases output <;> exact h.height
  case positions =>
    intro side
    have hsize : (t.withPort output position port).size = t.size := by cases output <;> rfl
    rw [hsize, ← h.positions side]
    rcases hports side with hsame | hset
    · rw [hsame]
    · rw [hset, List.length_set]
  case ports =>
    intro side p hp
    rcases hports side with hsame | hset
    · rw [hsame] at hp
      exact h.ports side p hp
    · rw [hset] at hp
      rcases List.mem_or_eq_of_mem_set hp with hold | rfl
      · exact h.ports side p hold
      · exact hport
  case constants => cases output <;> exact h.constants
  case distinct => cases output <;> exact h.distinct
  case contentSize => cases output <;> exact h.contentSize

end ChipType

/-! ## §2. Calls. -/

namespace Registry

open ChipType (spelled)

universe u

variable {σ : Type u}

/-- What a call makes of a definition, and its answer. -/
def naming (output : Bool) (position : Nat) (port : String) (t : ChipType) : ChipType × Bool :=
  if t.MayName output position port then (t.withPort output position port, true) else (t, false)

theorem canonical_naming {t : ChipType} (h : t.IsCanonical) {port : String}
    (hport : ChipType.IsSpelled port) (output : Bool) (position : Nat) :
    (naming output position port t).1.canonical = (naming output position port t).1 := by
  unfold naming
  split
  · exact ChipType.canonical_eq (h.withPort hport)
  · exact ChipType.canonical_eq h

theorem content_naming (output : Bool) (position : Nat) (port : String) (t : ChipType) :
    (naming output position port t).1.content = t.content := by
  unfold naming
  split
  · cases output <;> rfl
  · rfl

theorem naming_of_refused {output : Bool} {position : Nat} {port : String} {t : ChipType}
    (h : (naming output position port t).2 = false) : (naming output position port t).1 = t := by
  unfold naming at h ⊢
  split at h
  · exact absurd h.symm Bool.false_ne_true
  · rename_i hmay
    rw [if_neg hmay]

theorem types_get_of_custom {r : Registry σ} {name : Name} {t : ChipType}
    (hname : isStandard name = false) (h : r.custom.find? name = some t) :
    r.types.get name = t := by
  have hstandard : Library.standard.find? name = none := by
    simpa [isStandard, Table.contains] using hname
  unfold types
  dsimp only
  rw [hstandard, h]
  rfl

theorem types_get_of_unknown {r : Registry σ} {name : Name} (h : r.contains name = false) :
    r.types.get name = .skeleton := by
  obtain ⟨hstandard, hcustom⟩ : Library.standard.find? name = none ∧ r.custom.find? name = none := by
    simpa [contains, isStandard, isCustom, Table.contains] using h
  unfold types
  dsimp only
  rw [hstandard, hcustom]
  rfl

variable [TypeStore σ]

theorem setPort_eq (r : Registry σ) (name : Name) (position : Nat) (text : String)
    (output : Bool) : r.setPort name position text output
      = r.change name false (naming output position (spelled text)) := by
  unfold setPort
  congr
  funext t
  unfold naming ChipType.MayName
  simp only [Bool.and_eq_true, decide_eq_true_eq, Bool.or_eq_true, String.isEmpty_iff,
    Bool.not_eq_true', List.contains_eq_mem, decide_eq_false_iff_not]
  rfl

/-- A call was answered: what the answer says, and the registry after the call. -/
structure IsNamed (r : Registry σ) (name : Name) (position : Nat) (port : String) (output : Bool)
    (answer : Bool) (after : Registry σ) : Prop where
  possible : answer = true ↔
    isStandard name = false ∧ (r.types.get name).MayName output position port
  renamed : answer = true →
    (after.types.get name).IsRenamed (r.types.get name) output position port
  refused : answer = false → after.types.get name = r.types.get name
  /-- If the type is known, a call that is refused leaves all types alone. -/
  known : answer = false → r.contains name = true → after.custom = r.custom
  /-- If it is not known, the call defines it. -/
  created : answer = false → r.contains name = false → after.custom = r.custom.insert name .skeleton
  /-- Nothing at all becomes of a standard type and of the store. -/
  standard : isStandard name = true → after = r
  /-- Any other type is a custom type now. -/
  custom : isStandard name = false → after.custom.find? name = some (after.types.get name)
  /-- The store was asked to save the definition that the type has now. -/
  stored : isStandard name = false →
    after.store = (TypeStore.save r.store name (after.types.get name)).2
  others : ∀ other, other ≠ name → after.custom.find? other = r.custom.find? other ∧
    after.types.get other = r.types.get other
  base : after.base = r.base
  baseMaxSize : after.baseMaxSize = r.baseMaxSize
  route : after.route = r.route

variable {r : Registry σ} {name : Name} {position : Nat} {port : String} {output : Bool}

/-- The definition is put into the registry as it was saved. -/
theorem isNamed_naming (hname : isStandard name = false) {store : σ}
    (hsave : (TypeStore.save r.store name
      (naming output position port (r.types.get name)).1).2 = store) :
    r.IsNamed name position port output (naming output position port (r.types.get name)).2
      { r with
        store, custom := r.custom.insert name (naming output position port (r.types.get name)).1 } := by
  have htypes := r.types_insert name hname (naming output position port (r.types.get name)).1 store
  have hheld : (Registry.types { r with
      store, custom := r.custom.insert name (naming output position port (r.types.get name)).1 }).get
        name = (naming output position port (r.types.get name)).1 := by
    rw [htypes]
    exact if_pos rfl
  constructor
  case possible =>
    unfold naming
    split
    · rename_i hmay
      exact iff_of_true rfl ⟨hname, hmay⟩
    · rename_i hmay
      exact iff_of_false Bool.false_ne_true fun h => hmay h.2
  case renamed =>
    rw [hheld]
    unfold naming
    split
    · rename_i hmay
      exact fun _ => ChipType.isRenamed_withPort hmay
    · exact fun h => absurd h Bool.false_ne_true
  case refused =>
    rw [hheld]
    exact naming_of_refused
  case known =>
    intro hrefused hknown
    obtain ⟨t, ht⟩ := Table.contains_iff.1 (show r.custom.contains name = true by
      simpa [contains, isCustom, hname] using hknown)
    rw [naming_of_refused hrefused, types_get_of_custom hname ht]
    exact Table.setTo_eq_self ht
  case created =>
    intro hrefused hunknown
    rw [naming_of_refused hrefused, types_get_of_unknown hunknown]
  case standard => exact fun h => absurd (hname.symm.trans h) Bool.false_ne_true
  case custom =>
    intro _
    rw [hheld]
    exact (Table.find?_insert _ _ _ _).trans (if_pos rfl)
  case stored =>
    intro _
    rw [hheld]
    exact hsave.symm
  case others =>
    intro other hother
    refine ⟨(Table.find?_insert _ _ _ _).trans (if_neg (Ne.symm hother)), ?_⟩
    rw [htypes]
    exact if_neg hother
  case base => rfl
  case baseMaxSize => rfl
  case route => rfl

/-- A call is answered, or the store does not save the definition; then all types are as before. -/
theorem setPort_cases (hr : AllCanonical r.custom) (name : Name) (position : Nat) (text : String)
    (output : Bool) :
    (∃ answer after, r.setPort name position text output = (.ok answer, after) ∧
      r.IsNamed name position (spelled text) output answer after) ∨
    ∃ t e store, isStandard name = false ∧ TypeStore.save r.store name t = (.error e, store) ∧
      r.setPort name position text output = (.error e, { r with store }) := by
  rw [setPort_eq]
  by_cases hname : isStandard name = true
  · left
    refine ⟨false, r, by unfold change; rw [if_pos hname], ?_⟩
    constructor
    case possible => exact iff_of_false Bool.false_ne_true fun h => by simp [hname] at h
    case renamed => exact fun h => absurd h Bool.false_ne_true
    case refused => exact fun _ => rfl
    case known => exact fun _ _ => rfl
    case created => exact fun _ h => by simp [contains, hname] at h
    case standard => exact fun _ => rfl
    case custom => exact fun h => absurd (h.symm.trans hname) Bool.false_ne_true
    case stored => exact fun h => absurd (h.symm.trans hname) Bool.false_ne_true
    case others => exact fun _ _ => ⟨rfl, rfl⟩
    case base => rfl
    case baseMaxSize => rfl
    case route => rfl
  · rw [Bool.not_eq_true] at hname
    have hdefines := defines_change (r := r) hname false (naming output position (spelled text))
    rw [canonical_naming (hr.get name) (ChipType.isSpelled_spelled text) output position] at hdefines
    cases hsave : TypeStore.save r.store name
        (naming output position (spelled text) (r.types.get name)).1 with
    | mk result store =>
      cases result with
      | ok u =>
        exact Or.inl ⟨_, _, hdefines.saved store hsave,
          isNamed_naming hname (congrArg Prod.snd hsave)⟩
      | error e => exact Or.inr ⟨_, e, store, hname, hsave, hdefines.failed e store hsave⟩

/-! ## §3. Records. -/

/-- In memory all other records stay, and that of the type tells the definition it has now. -/
theorem setPort_memory {r : Registry MemoryStore} (hr : AllCanonical r.custom) (name : Name)
    (position : Nat) (text : String) (output : Bool) :
    ∃ answer after, r.setPort name position text output = (.ok answer, after) ∧
      (isStandard name = false → after.store.records
        = r.store.records.insert name (after.types.get name).recordText) ∧
      (answer = false → r.store.records.find? name = some (r.types.get name).recordText →
        after.store = r.store) := by
  rcases setPort_cases hr name position text output with
    ⟨answer, after, hcall, hnamed⟩ | ⟨t, e, store, -, hsave, -⟩
  · refine ⟨answer, after, hcall, fun hname => ?_, fun hrefused hrecord => ?_⟩
    · rw [hnamed.stored hname]
      rfl
    · by_cases hname : isStandard name = true
      · rw [hnamed.standard hname]
      · -- The record that is written is the one that is there.
        rw [Bool.not_eq_true] at hname
        rw [hnamed.stored hname, hnamed.refused hrefused]
        exact congrArg MemoryStore.mk (Table.setTo_eq_self hrecord)
  · exact absurd (congrArg Prod.fst hsave) (by simp [TypeStore.save])

open DirectoryStore (IsDiskError)

/-- In a directory as well, unless the disk does not work. -/
theorem setPort_directory {r : Registry DirectoryStore} {s : DirectoryStore} {types : TypeTable}
    (h : r.Follows s) (hs : Supplies s types) {name : Name} (hname : isStandard name = false)
    (hrecord : s.IsRecordName name) (position : Nat) (text : String) (output : Bool)
    (hdisk : ¬ IsDiskError (r.setPort name position text output).1) :
    ∃ answer after disk, r.setPort name position text output = (.ok answer, after) ∧
      after.Follows { s with disk } ∧
      Supplies { s with disk } (types.insert name (after.types.get name)) := by
  have hcanonical : AllCanonical r.custom := fun name t ht => (h.definable name t ht).canonical
  have hdone := done_change (r := r) name false (naming output position (spelled text))
  rw [← setPort_eq, if_neg (by simp [hname])] at hdone
  have hcontent : (naming output position (spelled text) (r.types.get name)).1.content.IsRecordable := by
    rw [content_naming]
    exact (h.definable.get name).2
  have hput : ¬ IsDiskError (r.put name
      (naming output position (spelled text) (r.types.get name)).1).1 := by
    refine DirectoryStore.not_isDiskError_of hdisk fun e after herror => ?_
    rw [setPort_eq]
    simp [change, hname, herror, Except.map]
  obtain ⟨after, disk, types', hafter, hfollows, hsupplies, heffect⟩ :=
    h.put hs hname hrecord hcontent hput
  rw [← hdone] at hafter
  rcases setPort_cases hcanonical name position text output with
    ⟨answer, after', hcall, hnamed⟩ | ⟨t, e, store, -, -, hcall⟩
  · rw [hcall] at hafter
    obtain rfl : after' = after := congrArg Prod.snd hafter
    obtain ⟨hcustom, hstored⟩ := heffect.touched name (List.mem_singleton_self name)
    have htypes : types' = types.insert name (after'.types.get name) := by
      refine Table.ext_find? fun other => ?_
      rw [Table.find?_insert]
      by_cases hother : name = other
      · rw [if_pos hother, ← hother, hstored, ← hcustom, hnamed.custom hname]
      · rw [if_neg hother, heffect.stored other (by simpa [eq_comm] using hother)]
    exact ⟨answer, after', disk, hcall, hfollows, htypes ▸ hsupplies⟩
  · rw [hcall] at hafter
    exact absurd (congrArg Prod.fst hafter) (by simp [done, Except.map])

/-! ## §4. All of it. -/

/-- Whatever the registry and the call, the port gets its name or the type stays as it is, and the
records of all other types stay in either case. -/
theorem setPort_exact :
    (∀ {σ : Type u} [TypeStore σ] {r : Registry σ}, r.Reachable → ∀ name position text output,
      (∃ answer after, r.setPort name position text output = (.ok answer, after) ∧
        r.IsNamed name position (spelled text) output answer after) ∨
      ∃ t e store, isStandard name = false ∧ TypeStore.save r.store name t = (.error e, store) ∧
        r.setPort name position text output = (.error e, { r with store })) ∧
    (∀ {r : Registry MemoryStore}, r.Reachable → ∀ name position text output,
      ∃ answer after, r.setPort name position text output = (.ok answer, after) ∧
        (isStandard name = false → after.store.records
          = r.store.records.insert name (after.types.get name).recordText) ∧
        (answer = false → r.store.records.find? name = some (r.types.get name).recordText →
          after.store = r.store)) ∧
    ∀ {r : Registry DirectoryStore} {s : DirectoryStore} {types : TypeTable}, r.Follows s →
      Supplies s types → ∀ name position text output, isStandard name = false →
      s.IsRecordName name → ¬ IsDiskError (r.setPort name position text output).1 →
      ∃ answer after disk, r.setPort name position text output = (.ok answer, after) ∧
        after.Follows { s with disk } ∧
        Supplies { s with disk } (types.insert name (after.types.get name)) :=
  ⟨fun hr => setPort_cases hr.allCanonical, fun hr => setPort_memory hr.allCanonical,
    fun h hs _ position text output hname hrecord =>
      setPort_directory h hs hname hrecord position text output⟩

/-- A registry on a directory that is not there yet. -/
def drawerRegistry : Registry DirectoryStore :=
  ⟨.empty, freshRegistry.base, freshRegistry.baseMaxSize, freshRegistry.route, .drawer⟩

theorem follows_drawerRegistry :
    drawerRegistry.Follows .drawer ∧ Supplies .drawer .empty := by
  have hnone : ∀ name t, (Table.empty : TypeTable).find? name ≠ some t := by
    intro name t ht
    rw [Table.find?_empty] at ht
    exact absurd ht (by simp)
  have hbare : DirectoryStore.HasNoRecords
      (.ofDir ((Disk.ofHome ["home"]).makeFolders "types").2 "types" "T_") :=
    DirectoryStore.hasNoRecords_of_isAt (p := ["home", "types"]) ⟨rfl, rfl⟩ fun _ _ _ => rfl
  exact ⟨⟨rfl, fun name t ht => absurd ht (hnone name t), fun name t ht => absurd ht (hnone name t)⟩,
    DirectoryStore.stores_empty (by decide) hbare, fun name t ht => absurd ht (hnone name t)⟩

/-- Of a type with one output a second one gets a name, no input gets the name of another one, and
what is written into a directory is a record of a type that was not known. -/
theorem setPort_gateRegistry :
    (∃ after, gateRegistry.setPort ⟨"cell"⟩ 1 " carry " true = (.ok true, after) ∧
      gateRegistry.IsNamed ⟨"cell"⟩ 1 "CARRY" true true after) ∧
    (∃ after, gateRegistry.setPort ⟨"cell"⟩ 1 "a" false = (.ok false, after) ∧
      after.store = gateRegistry.store) ∧
    ∃ after disk, drawerRegistry.setPort ⟨"ghost"⟩ 5 "z" false = (.ok false, after) ∧
      Supplies { DirectoryStore.drawer with disk }
        (Table.empty.insert ⟨"ghost"⟩ (after.types.get ⟨"ghost"⟩)) := by
  obtain ⟨hcases, hmemory, hdirectory⟩ := setPort_exact.{0}
  refine ⟨?_, ?_, ?_⟩
  · have hport : spelled " carry " = "CARRY" := by decide +kernel
    have hcall : (gateRegistry.setPort ⟨"cell"⟩ 1 " carry " true).1 = .ok true := by decide +kernel
    rcases hcases reachable_gateRegistry ⟨"cell"⟩ 1 " carry " true with
      ⟨answer, after, hanswer, hnamed⟩ | ⟨t, e, store, -, -, hfailed⟩
    · rw [hanswer] at hcall
      obtain rfl : answer = true := Except.ok.inj hcall
      exact ⟨after, hanswer, hport ▸ hnamed⟩
    · rw [hfailed] at hcall
      exact absurd hcall (by simp)
  · have hcall : (gateRegistry.setPort ⟨"cell"⟩ 1 "a" false).1 = .ok false := by decide +kernel
    have hrecord : gateRegistry.store.records.find? ⟨"cell"⟩
        = some (gateRegistry.types.get ⟨"cell"⟩).recordText := rfl
    obtain ⟨answer, after, hanswer, -, hkept⟩ :=
      hmemory reachable_gateRegistry ⟨"cell"⟩ 1 "a" false
    rw [hanswer] at hcall
    exact ⟨after, hanswer.trans (Prod.ext hcall rfl), hkept (Except.ok.inj hcall) hrecord⟩
  · have hcall : (drawerRegistry.setPort ⟨"ghost"⟩ 5 "z" false).1 = .ok false := by decide +kernel
    obtain ⟨hfollows, hsupplies⟩ := follows_drawerRegistry
    obtain ⟨answer, after, disk, hanswer, -, hafter⟩ := hdirectory hfollows hsupplies ⟨"ghost"⟩ 5 "z"
      false (by decide +kernel) (by decide +kernel) (by rw [hcall]; decide)
    rw [hanswer] at hcall
    exact ⟨after, disk, hanswer.trans (Prod.ext hcall rfl), hafter⟩

/-- A call that is refused defines a type that was not known, and writes its record. -/
theorem setPort_unknown : freshRegistry.Reachable ∧
    ∃ after, freshRegistry.setPort ⟨"ghost"⟩ 5 "z" false = (.ok false, after) ∧
      freshRegistry.isCustom ⟨"ghost"⟩ = false ∧ after.isCustom ⟨"ghost"⟩ = true ∧
      freshRegistry.store.records.keys = [] ∧ after.store.records.keys = [⟨"ghost"⟩] :=
  ⟨.opened (show load {} .empty = .ok freshRegistry from rfl), _,
    Prod.ext (show _ = Except.ok false by decide +kernel) rfl, by decide +kernel, by decide +kernel,
    by decide +kernel, by decide +kernel⟩

end Registry

end LogicBoard
