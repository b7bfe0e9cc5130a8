/-
  LogicBoard.Proofs.Store.Requests
  ────────────────────────────────
  **WHAT A DIRECTORY STORES.**

  The records of definitions that can be recorded tell these definitions, so
  a directory that holds them stores a table of types.

  Main statements:
    • `Stores.save`, `Stores.remove` — what is asked for is changed in the
      table,
    • `Stores.load`, `Stores.loadAll`, `Stores.changes` — all other requests
      are answered from it.
-/
import LogicBoard.Proofs.Record.RoundTrip
import LogicBoard.Proofs.Store.Records

namespace LogicBoard.DirectoryStore

variable {s : DirectoryStore} {name : Name}

/-! ## §1. Tables of types. -/

/-- The directory holds the records of exactly these types. -/
structure Stores (s : DirectoryStore) (types : TypeTable) : Prop where
  dir : s.dir ≠ ""
  kept : s.Kept
  recordable : ∀ name t, types.find? name = some t → s.IsRecordName name ∧ t.IsRecordable
  onDisk : ∀ name, s.IsRecordName name →
    s.onDisk name = (types.find? name).map ChipType.recordText

/-- What a store has seen if it has seen these types. -/
def digests (types : TypeTable) : Table Name Digest :=
  types.mapValues fun t => Digest.ofText t.recordText

variable {types : TypeTable}

theorem Stores.holds (h : s.Stores types) : s.Holds (types.mapValues ChipType.recordText) := by
  refine ⟨h.dir, h.kept, fun name text htext => ?_, fun name hname => ?_⟩
  · rw [Table.find?_mapValues] at htext
    obtain ⟨t, ht, -⟩ := Option.map_eq_some_iff.1 htext
    exact (h.recordable name t ht).1
  · rw [Table.find?_mapValues]
    exact h.onDisk name hname

theorem Holds.stores (h : s.Holds (types.mapValues ChipType.recordText))
    (hrecordable : ∀ name t, types.find? name = some t → t.IsRecordable) : s.Stores types := by
  refine ⟨h.dir, h.kept, fun name t ht => ⟨?_, hrecordable name t ht⟩, fun name hname => ?_⟩
  · refine h.named name t.recordText ?_
    rw [Table.find?_mapValues, ht]
    rfl
  · rw [h.onDisk name hname, Table.find?_mapValues]

/-- A directory without records stores no types. -/
theorem stores_empty (hdir : s.dir ≠ "")
    (h : HasNoRecords { s with disk := (s.disk.makeFolders s.dir).2 }) : s.Stores .empty :=
  Holds.stores (holds_empty hdir h) fun name t ht => by simp [Table.find?_empty] at ht

/-- What is remembered of records does not matter for what is stored. -/
theorem Stores.see (h : s.Stores types) (seen : Table Name Digest) : Stores { s with seen } types :=
  (h.holds.see seen).stores fun name t ht => (h.recordable name t ht).2

/-! ## §2. Changing. -/

/-- What is saved is stored. -/
theorem Stores.save (h : s.Stores types) (hname : s.IsRecordName name) {t : ChipType}
    (ht : t.IsRecordable) (hdisk : ¬ IsDiskError (s.save name t).1) : ∃ disk,
      s.save name t
        = (.ok (), { s with disk, seen := s.seen.insert name (Digest.ofText t.recordText) }) ∧
      Stores { s with disk } (types.insert name t) := by
  obtain ⟨disk, hsave, hholds⟩ := h.holds.save hname t hdisk
  rw [← Table.mapValues_insert] at hholds
  refine ⟨disk, hsave, hholds.stores fun other u hu => ?_⟩
  rw [Table.find?_insert] at hu
  split at hu
  · exact Option.some.inj hu ▸ ht
  · exact (h.recordable other u hu).2

/-- What is removed is stored no longer. -/
theorem Stores.remove (h : s.Stores types) (hname : s.IsRecordName name)
    (hdisk : ¬ IsDiskError (s.remove name).1) : ∃ disk,
      s.remove name = (.ok (), { s with disk, seen := s.seen.erase name }) ∧
      Stores { s with disk } (types.erase name) := by
  obtain ⟨disk, hremove, hholds⟩ := h.holds.remove hname hdisk
  rw [← Table.mapValues_erase] at hholds
  refine ⟨disk, hremove, hholds.stores fun other u hu => ?_⟩
  rw [Table.find?_erase] at hu
  split at hu
  · exact absurd hu (by simp)
  · exact (h.recordable other u hu).2

/-! ## §3. Reading. -/

/-- What a store has seen once it has looked for the record of a type. -/
def noted (seen : Table Name Digest) (name : Name) : Option ChipType → Table Name Digest
  | some t => seen.insert name (Digest.ofText t.recordText)
  | none => seen.erase name

/-- The definition that a record tells. -/
def told (text : String) : ChipType := (ChipType.ofRecordText "" text).toOption.getD .skeleton

theorem told_recordText {t : ChipType} (ht : t.IsStorable) : told t.recordText = t.reread := by
  unfold told
  rw [ChipType.ofRecordText_reread ht]
  rfl

theorem ofRecordText_eq_told {t : ChipType} (ht : t.IsRecordable) : told t.recordText = t :=
  (told_recordText ht.isStorable).trans ht.reread_eq

/-- Records of types tell these types. -/
theorem Stores.tells (h : s.Stores types) : Tells (types.mapValues ChipType.recordText) told := by
  intro name text htext path
  rw [Table.find?_mapValues] at htext
  obtain ⟨t, ht, rfl⟩ := Option.map_eq_some_iff.1 htext
  have hrecordable := (h.recordable name t ht).2
  rw [ofRecordText_eq_told hrecordable, ChipType.ofRecordText_recordText hrecordable]

/-- One type is loaded from the table. -/
theorem Stores.load (h : s.Stores types) (hname : s.IsRecordName name)
    (hdisk : ¬ IsDiskError (s.load name).1) : s.load name
      = (.ok (types.find? name), { s with seen := noted s.seen name (types.find? name) }) := by
  rw [h.holds.load h.tells hname hdisk, Table.find?_mapValues]
  cases ht : types.find? name with
  | none => rfl
  | some t =>
    dsimp only [Option.map_some]
    rw [ofRecordText_eq_told (h.recordable name t ht).2]
    rfl

/-- All types are loaded, and all of them are remembered. -/
theorem Stores.loadAll (h : s.Stores types) (hscan : ¬ IsDiskError s.scan) :
    s.loadAll = (.ok types.entries, { s with seen := digests types }) := by
  have hentries : ((types.mapValues ChipType.recordText).entries.map fun e => (e.1, told e.2))
      = types.entries := by
    show (types.entries.map fun e => (e.1, e.2.recordText)).map (fun e => (e.1, told e.2)) = _
    rw [List.map_map]
    refine (List.map_congr_left fun e he => ?_).trans (List.map_id _)
    have hrecordable := (h.recordable e.1 e.2 (Table.find?_eq_some_iff.2 he)).2
    exact congrArg (e.1, ·) (ofRecordText_eq_told hrecordable)
  have hdigests : (types.mapValues ChipType.recordText).mapValues Digest.ofText = digests types := by
    refine Table.ext_find? fun name => ?_
    unfold digests
    simp only [Table.find?_mapValues, Option.map_map, Function.comp_def]
  rw [h.holds.loadAll h.tells hscan, hentries, hdigests]

/-- What has changed is what is not stored as it was last seen. -/
theorem Stores.changes (h : s.Stores types) (hscan : ¬ IsDiskError s.scan) :
    ∃ names, s.changes = .ok names ∧
      ∀ name, name ∈ names ↔ s.seen.find? name ≠ (digests types).find? name := by
  obtain ⟨names, hchanges, hmem⟩ := h.holds.changes hscan
  refine ⟨names, hchanges, fun name => (hmem name).trans ?_⟩
  unfold digests
  simp only [Table.find?_mapValues, Option.map_map, Function.comp_def]

end LogicBoard.DirectoryStore
