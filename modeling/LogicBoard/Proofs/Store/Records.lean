/-
  LogicBoard.Proofs.Store.Records
  ────────────────────────────────
  **THE RECORDS IN A DIRECTORY.**

  Seen from outside, a directory is a table of texts by the names of types,
  whatever the texts say.  A directory that is not there yet holds no
  records, and it comes into being when the first one is written.

  Main statements:
    • `Holds.rewrites` — what is changed on the disk is changed in the table,
    • `Holds.save`, `Holds.remove` — so is what is asked for,
    • `Holds.read`, `Holds.load`, `Holds.scan`, `Holds.loadAll` — all other
      requests are answered from it,
    • `changes_of_scan` — a directory of any kind reports what it finds
      under another digest than it has seen.
-/
import LogicBoard.Proofs.Store.Directory

namespace LogicBoard.DirectoryStore

variable {s : DirectoryStore} {name : Name}

/-! ## §1. Tables of texts. -/

/-- The directory holds exactly these records. -/
structure Holds (s : DirectoryStore) (records : Table Name String) : Prop where
  dir : s.dir ≠ ""
  kept : s.Kept
  named : ∀ name text, records.find? name = some text → s.IsRecordName name
  onDisk : ∀ name, s.IsRecordName name → s.onDisk name = records.find? name

/-- A directory without records holds none. -/
theorem holds_empty (hdir : s.dir ≠ "")
    (h : HasNoRecords { s with disk := (s.disk.makeFolders s.dir).2 }) : s.Holds .empty := by
  refine ⟨hdir, kept_of_hasNoRecords hdir h, fun name text htext => ?_, fun name hname => ?_⟩
  · rw [Table.find?_empty] at htext
    exact absurd htext (by simp)
  · rw [Table.find?_empty]
    by_cases hthere : ∃ p, s.IsAt p
    · obtain ⟨p, hp⟩ := hthere
      rw [makeFolders_of_isAt hdir hp] at h
      exact onDisk_of_hasNoRecords hdir h hname
    · exact onDisk_of_missing hdir hname fun p hp => hthere ⟨p, hp⟩

/-- What is remembered of records does not matter for what there is. -/
theorem Holds.see {records : Table Name String} (h : s.Holds records) (seen : Table Name Digest) :
    Holds { s with seen } records := by
  refine ⟨h.dir, ?_, h.named, h.onDisk⟩
  cases h.kept with
  | found p there own => exact .found p there own
  | missing away bare => exact .missing away bare

variable {records : Table Name String}

/-! ## §2. Errors of the disk. -/

/-- A request fails because of the disk. -/
def IsDiskError {α : Type} (result : Except StoreError α) : Prop :=
  ∃ path e, result = .error (.disk path e)

instance {α : Type} : (result : Except StoreError α) → Decidable (IsDiskError result)
  | .error (.disk path e) => .isTrue ⟨path, e, rfl⟩
  | .error (.record path) => .isFalse fun ⟨_, _, h⟩ => by cases h
  | .ok a => .isFalse fun ⟨_, _, h⟩ => by cases h

/-- If a request does not fail because of the disk, then no other that it passes the errors on of
does. -/
theorem not_isDiskError_of {α β σ : Type} {x : Except StoreError α × σ} {y : Except StoreError β}
    (hy : ¬ IsDiskError y) (h : ∀ e after, x = (.error e, after) → y = .error e) :
    ¬ IsDiskError x.1 := by
  rintro ⟨path, e, hx⟩
  exact hy ⟨path, e, h _ x.2 (Prod.ext hx rfl)⟩

/-! ## §3. Writing and deleting. -/

/-- Making the directory, as far as that goes, changes no record. -/
theorem Holds.made (h : s.Holds records) :
    Holds { s with disk := (s.disk.makeFolders s.dir).2 } records := by
  obtain ⟨hkept, hsame⟩ := h.kept.made h.dir
  exact ⟨h.dir, hkept, h.named, fun name hname => (hsame name hname).trans (h.onDisk name hname)⟩

/-- When a record is changed on the disk, it is changed in the table. -/
theorem Holds.rewrites (h : s.Holds records) (hname : s.IsRecordName name) {p : Place}
    {o : Option String} {disk : Disk} (hp : s.IsAt p) (hrewrites : s.Rewrites p name o disk)
    (hshort : o ≠ none → s.IsShort name) : Holds { s with disk } (records.setTo name o) := by
  have hself : ∀ other, s.nameOf? (s.fileOf name) = some other →
      s.IsRecordName name ∧ other = name := fun other hother =>
    ⟨hname, Option.some.inj (hother.symm.trans (nameOf?_fileOf h.dir hname))⟩
  refine ⟨h.dir, hrewrites.kept h.dir hp hself hshort (h.kept.owns hp), fun other text htext => ?_,
    fun other hother => ?_⟩
  · rw [Table.find?_setTo] at htext
    split at htext
    · rename_i heq
      exact heq ▸ hname
    · exact h.named other text htext
  · rw [hrewrites.onDisk h.dir hp hshort hother, Table.find?_setTo]
    by_cases heq : name = other
    · rw [if_pos heq, if_pos heq.symm]
    · rw [if_neg heq, if_neg (Ne.symm heq), h.onDisk other hother]

/-- What is saved is held as its record. -/
theorem Holds.save (h : s.Holds records) (hname : s.IsRecordName name) (t : ChipType)
    (hdisk : ¬ IsDiskError (s.save name t).1) : ∃ disk,
      s.save name t
        = (.ok (), { s with disk, seen := s.seen.insert name (Digest.ofText t.recordText) }) ∧
      Holds { s with disk } (records.insert name t.recordText) := by
  have hmade := h.made
  unfold DirectoryStore.save at hdisk ⊢
  cases hresult : s.disk.makeFolders s.dir with
  | mk result made =>
    rw [hresult] at hdisk hmade
    cases result with
    | error e => exact absurd ⟨_, _, rfl⟩ hdisk
    | ok =>
      dsimp only at hdisk ⊢
      cases hwrite : made.writeText (s.pathOf name) t.recordText with
      | error e =>
        rw [hwrite] at hdisk
        exact absurd ⟨_, _, rfl⟩ hdisk
      | ok disk =>
        obtain ⟨q, hlocate, hfree, rfl⟩ := Disk.write_ok hwrite
        obtain ⟨hshort, p, hp, rfl⟩ :=
          (locate_pathOf_iff (s := { s with disk := made }) h.dir hname).1 hlocate
        exact ⟨_, rfl, hmade.rewrites hname hp (rewrites_put hfree t.recordText) fun _ => hshort⟩

/-- What is removed is held no longer. -/
theorem Holds.remove (h : s.Holds records) (hname : s.IsRecordName name)
    (hdisk : ¬ IsDiskError (s.remove name).1) : ∃ disk,
      s.remove name = (.ok (), { s with disk, seen := s.seen.erase name }) ∧
      Holds { s with disk } (records.erase name) := by
  unfold DirectoryStore.remove at hdisk ⊢
  dsimp only at hdisk ⊢
  cases hremove : s.disk.remove (s.pathOf name) with
  | ok disk =>
    obtain ⟨q, hlocate, hfree, rfl⟩ := Disk.remove_ok hremove
    obtain ⟨-, p, hp, rfl⟩ := (locate_pathOf_iff h.dir hname).1 hlocate
    exact ⟨_, rfl, h.rewrites hname hp (rewrites_erase hfree) (by simp)⟩
  | error e =>
    rw [hremove] at hdisk
    by_cases he : e = .notFound
    · -- Nothing was there to be removed, so the table had nothing under the name either.
      subst he
      have hnone : records.find? name = none := by
        rw [← h.onDisk name hname]
        unfold DirectoryStore.onDisk
        rw [Disk.readText_of_remove hremove]
        rfl
      have herase : records.erase name = records := Table.setTo_eq_self hnone
      refine ⟨s.disk, rfl, ?_⟩
      rw [herase]
      exact h
    · refine absurd ?_ hdisk
      cases e <;> first | exact absurd rfl he | exact ⟨_, _, rfl⟩

/-! ## §4. Reading one record. -/

/-- Reading a file fails because of the disk, or tells what is there. -/
theorem read_cases (s : DirectoryStore) (path : String) :
    IsDiskError (s.read path) ∨ s.read path = .ok (s.disk.readText path).toOption := by
  unfold DirectoryStore.read
  cases s.disk.readText path with
  | ok text => exact Or.inr rfl
  | error e =>
    by_cases he : e = .notFound
    · subst he
      exact Or.inr rfl
    · refine Or.inl ?_
      cases e <;> first | exact absurd rfl he | exact ⟨_, _, rfl⟩

/-- The definition that a record tells, and none if there is no record. -/
def definition? (path : String) (text? : Option String) : Except StoreError (Option ChipType) :=
  match text? with
  | none => .ok none
  | some text => (ChipType.ofRecordText path text).map some

/-- The digests that are remembered once a record was looked for. -/
def marked (s : DirectoryStore) (name : Name) (text? : Option String) : DirectoryStore :=
  { s with seen := s.seen.setTo name (text?.map Digest.ofText) }

/-- One type is loaded from its record, and then the record's digest is remembered. -/
theorem load_eq (s : DirectoryStore) (name : Name) : s.load name =
    match s.read (s.pathOf name) with
    | .error e => (.error e, s)
    | .ok text? =>
      match definition? (s.pathOf name) text? with
      | .error e => (.error e, s)
      | .ok t? => (.ok t?, s.marked name text?) := by
  unfold DirectoryStore.load
  dsimp only
  cases s.read (s.pathOf name) with
  | error e => rfl
  | ok text? =>
    cases text? with
    | none => rfl
    | some text =>
      dsimp only [definition?]
      cases ChipType.ofRecordText (s.pathOf name) text <;> rfl

theorem load_ok_iff {t? : Option ChipType} {after : DirectoryStore} :
    s.load name = (.ok t?, after) ↔ ∃ text?, s.read (s.pathOf name) = .ok text? ∧
      definition? (s.pathOf name) text? = .ok t? ∧ after = s.marked name text? := by
  rw [load_eq]
  constructor
  · intro h
    split at h
    · exact absurd (congrArg Prod.fst h) (by simp)
    · rename_i text? hread
      split at h
      · exact absurd (congrArg Prod.fst h) (by simp)
      · rename_i u? hdefinition
        obtain ⟨ht, hafter⟩ := Prod.mk.inj h
        exact ⟨text?, hread, hdefinition.trans ht, hafter.symm⟩
  · rintro ⟨text?, hread, hdefinition, rfl⟩
    rw [hread]
    dsimp only
    rw [hdefinition]

/-- A record is read from the table. -/
theorem Holds.read (h : s.Holds records) (hname : s.IsRecordName name)
    (hdisk : ¬ IsDiskError (s.load name).1) :
    s.read (s.pathOf name) = .ok (records.find? name) := by
  rcases s.read_cases (s.pathOf name) with ⟨path, e, hread⟩ | hread
  · rw [load_eq, hread] at hdisk
    exact absurd ⟨_, _, rfl⟩ hdisk
  · exact hread.trans (congrArg Except.ok (h.onDisk name hname))

/-- Every record is told to be a definition, whatever path it is read from. -/
def Tells (records : Table Name String) (tell : String → ChipType) : Prop :=
  ∀ name text, records.find? name = some text →
    ∀ path, ChipType.ofRecordText path text = .ok (tell text)

/-- One type is loaded from the table. -/
theorem Holds.load (h : s.Holds records) {tell : String → ChipType} (htell : Tells records tell)
    (hname : s.IsRecordName name) (hdisk : ¬ IsDiskError (s.load name).1) :
    s.load name = (.ok ((records.find? name).map tell), s.marked name (records.find? name)) := by
  refine load_ok_iff.2 ⟨records.find? name, h.read hname hdisk, ?_, rfl⟩
  cases htext : records.find? name with
  | none => rfl
  | some text =>
    dsimp only [definition?]
    rw [htell name text htext]
    rfl

/-! ## §5. Looking through the directory. -/

/-- The record under a name and the path of its file. -/
def recordAt? (s : DirectoryStore) (records : Table Name String) (name : Name) :
    Option (String × String) :=
  (records.find? name).map fun text => (s.pathOf name, text)

/-- A file adds the record of its type. -/
theorem scanFile_cases {file : String} (hfile : ∀ name, s.nameOf? file = some name →
    (s.disk.readText (Path.join s.dir file)).toOption.map (Path.join s.dir file, ·)
      = s.recordAt? records name) (found : Table Name (String × String)) :
    IsDiskError (s.scanFile found file) ∨ ∃ after, s.scanFile found file = .ok after ∧
      ∀ name, after.find? name = if s.nameOf? file = some name
        then (s.recordAt? records name).or (found.find? name) else found.find? name := by
  unfold scanFile
  cases hname : s.nameOf? file with
  | none => exact Or.inr ⟨found, rfl, fun name => by simp⟩
  | some type =>
    have hrecord := hfile type hname
    dsimp only
    rcases s.read_cases (Path.join s.dir file) with ⟨path, e, hread⟩ | hread
    · rw [hread]
      exact Or.inl ⟨path, e, rfl⟩
    · rw [hread]
      cases hopen : (s.disk.readText (Path.join s.dir file)).toOption with
      | none =>
        rw [hopen] at hrecord
        refine Or.inr ⟨found, rfl, fun name => ?_⟩
        split
        · rename_i heq
          obtain rfl := Option.some.inj heq
          rw [← hrecord]
          rfl
        · rfl
      | some text =>
        rw [hopen] at hrecord
        refine Or.inr ⟨_, rfl, fun name => ?_⟩
        rw [Table.find?_insert]
        by_cases heq : type = name
        · subst heq
          rw [if_pos rfl, if_pos rfl, ← hrecord]
          rfl
        · rw [if_neg heq, if_neg fun h => heq (Option.some.inj h)]

theorem foldlM_scanFile_cases {files : List String} (hfiles : ∀ file ∈ files, ∀ name,
    s.nameOf? file = some name →
    (s.disk.readText (Path.join s.dir file)).toOption.map (Path.join s.dir file, ·)
      = s.recordAt? records name) (found : Table Name (String × String)) :
    IsDiskError (files.foldlM s.scanFile found) ∨
      ∃ after, files.foldlM s.scanFile found = .ok after ∧ ∀ name,
        after.find? name = if ∃ file ∈ files, s.nameOf? file = some name
          then (s.recordAt? records name).or (found.find? name) else found.find? name := by
  induction files generalizing found with
  | nil => exact Or.inr ⟨found, rfl, fun name => by simp⟩
  | cons file rest ih =>
    obtain ⟨hfile, hrest⟩ := List.forall_mem_cons.1 hfiles
    rw [List.foldlM_cons]
    rcases scanFile_cases hfile found with ⟨path, e, hstep⟩ | ⟨next, hstep, hnext⟩
    · rw [hstep]
      exact Or.inl ⟨path, e, rfl⟩
    · rw [hstep, Fallible.ok_bind]
      rcases ih hrest next with herror | ⟨after, hrun, hafter⟩
      · exact Or.inl herror
      refine Or.inr ⟨after, hrun, fun name => ?_⟩
      rw [hafter, hnext]
      -- Whether the type's file comes now or later makes no difference.
      by_cases hnow : s.nameOf? file = some name <;>
        by_cases hlater : ∃ file ∈ rest, s.nameOf? file = some name <;>
        simp only [List.exists_mem_cons_iff, hnow, hlater, true_or, false_or, or_false, if_true,
          if_false]
      cases s.recordAt? records name <;> rfl

theorem checkPath_ne_notFound {path : String} (h : path ≠ "") :
    Disk.checkPath path ≠ .error .notFound := by
  unfold Disk.checkPath
  rw [if_neg (by simpa using h)]
  split
  · simp
  · split <;> simp

/-- If there is nothing to look through, the directory is not there. -/
theorem not_isAt_of_list_notFound (hdir : s.dir ≠ "") (hlist : s.disk.list s.dir = .error .notFound)
    (p : Place) : ¬ s.IsAt p := by
  intro hp
  cases hcheck : Disk.checkPath s.dir with
  | error e =>
    have herror : s.disk.list s.dir = .error e := by
      unfold Disk.list Disk.find Disk.locate
      rw [hcheck]
      rfl
    rw [hlist] at herror
    obtain rfl := Except.error.inj herror
    exact checkPath_ne_notFound hdir hcheck
  | ok =>
    exact Disk.list_notFound hlist (Disk.locate_ok_iff.2 ⟨hcheck, hp.leads⟩) hp.folder

/-- What a file in the directory shows is the record of its type. -/
theorem Holds.readText_file (h : s.Holds records) {p : Place} (hp : s.IsAt p) {file : String}
    {e : Entry} (hentry : s.disk.entryAt? (p ++ [file]) = some e)
    (hname : s.nameOf? file = some name) :
    (s.disk.readText (Path.join s.dir file)).toOption.map (Path.join s.dir file, ·)
      = s.recordAt? records name := by
  obtain ⟨rfl, hrecord, -⟩ := h.kept.owns hp file name e hname hentry
  show (s.onDisk name).map (s.pathOf name, ·) = _
  rw [h.onDisk name hrecord]
  rfl

/-- Where a type has a record, the directory is there and has the type's file. -/
theorem Holds.exists_file (h : s.Holds records) {text : String}
    (htext : records.find? name = some text) :
    s.nameOf? (s.fileOf name) = some name ∧
      ∃ p, s.IsAt p ∧ s.disk.entryAt? (p ++ [s.fileOf name]) = some (.text text) := by
  have hrecord := h.named name text htext
  have hsome := (h.onDisk name hrecord).trans htext
  exact ⟨nameOf?_fileOf h.dir hrecord, ((onDisk_eq_some_iff h.dir hrecord).1 hsome).2⟩

/-- Looking through the directory finds the records of the table. -/
theorem Holds.scan (h : s.Holds records) (hdisk : ¬ IsDiskError s.scan) :
    ∃ found, s.scan = .ok found ∧ ∀ name, found.find? name = s.recordAt? records name := by
  unfold DirectoryStore.scan at hdisk ⊢
  cases hlist : s.disk.list s.dir with
  | ok files =>
    rw [hlist] at hdisk
    obtain ⟨p, hlocate, hfolder, hmem⟩ := Disk.list_ok hlist
    have hp : s.IsAt p := ⟨(Disk.locate_ok_iff.1 hlocate).2, hfolder⟩
    have hfiles : ∀ file ∈ files, ∀ name, s.nameOf? file = some name →
        (s.disk.readText (Path.join s.dir file)).toOption.map (Path.join s.dir file, ·)
          = s.recordAt? records name := by
      intro file hfile name hname
      obtain ⟨e, hentry⟩ := (hmem file).1 hfile
      exact h.readText_file hp hentry hname
    rcases foldlM_scanFile_cases hfiles .empty with herror | ⟨found, hrun, hfound⟩
    · exact absurd herror hdisk
    · refine ⟨found, hrun, fun name => ?_⟩
      rw [hfound, Table.find?_empty, Option.or_none]
      split
      · rfl
      · -- A type whose file is not there has no record.
        rename_i hnone
        unfold recordAt?
        cases htext : records.find? name with
        | none => rfl
        | some text =>
          obtain ⟨hfile, q, hq, hentry⟩ := h.exists_file htext
          obtain rfl := hq.unique hp
          exact absurd ⟨_, (hmem _).2 ⟨_, hentry⟩, hfile⟩ hnone
  | error e =>
    rw [hlist] at hdisk
    by_cases he : e = .notFound
    · subst he
      refine ⟨.empty, rfl, fun name => ?_⟩
      rw [Table.find?_empty]
      unfold recordAt?
      cases htext : records.find? name with
      | none => rfl
      | some text =>
        obtain ⟨-, p, hp, -⟩ := h.exists_file htext
        exact absurd hp (not_isAt_of_list_notFound h.dir hlist p)
    · refine absurd ?_ hdisk
      cases e <;> first | exact absurd rfl he | exact ⟨_, _, rfl⟩

/-! ## §6. Loading all records. -/

/-- Records that are read one by one are remembered one by one. -/
theorem readRecords_eq {l : List (Name × String)} {tell : String → ChipType} {path : Name → String}
    (h : ∀ e ∈ l, ChipType.ofRecordText (path e.1) e.2 = .ok (tell e.2)) (s : DirectoryStore) :
    s.readRecords (l.map fun e => (e.1, path e.1, e.2)) = (.ok (l.map fun e => (e.1, tell e.2)),
      { s with seen := l.foldl (fun seen e => seen.insert e.1 (Digest.ofText e.2)) s.seen }) := by
  induction l generalizing s with
  | nil => rfl
  | cons e rest ih =>
    obtain ⟨he, hrest⟩ := List.forall_mem_cons.1 h
    rw [List.map_cons]
    unfold readRecords
    rw [he]
    dsimp only
    rw [ih hrest]
    rfl

theorem isDiskError_loadAll (h : IsDiskError s.scan) : IsDiskError s.loadAll.1 := by
  obtain ⟨path, e, hscan⟩ := h
  unfold DirectoryStore.loadAll
  rw [hscan]
  exact ⟨path, e, rfl⟩

/-- All types are loaded, and all records are remembered. -/
theorem Holds.loadAll (h : s.Holds records) {tell : String → ChipType} (htell : Tells records tell)
    (hscan : ¬ IsDiskError s.scan) :
    s.loadAll = (.ok (records.entries.map fun e => (e.1, tell e.2)),
      { s with seen := records.mapValues Digest.ofText }) := by
  unfold DirectoryStore.loadAll
  obtain ⟨found, hfound, hfind⟩ := h.scan hscan
  have hentries : found.entries = records.entries.map fun e => (e.1, s.pathOf e.1, e.2) :=
    Table.entries_eq_map hfind
  have hread : ∀ e ∈ records.entries, ChipType.ofRecordText (s.pathOf e.1) e.2 = .ok (tell e.2) :=
    fun e he => htell e.1 e.2 (Table.find?_eq_some_iff.2 he) _
  have hseen : records.entries.foldl (fun seen e => seen.insert e.1 (Digest.ofText e.2)) .empty
      = records.mapValues Digest.ofText := by
    have hdigests : (records.mapValues Digest.ofText).entries
        = records.entries.map fun e => (e.1, Digest.ofText e.2) := rfl
    rw [← Table.ofList_entries (records.mapValues Digest.ofText), hdigests]
    unfold Table.ofList
    rw [List.foldl_map]
  rw [hfound]
  dsimp only
  rw [hentries, readRecords_eq hread, hseen]

/-! ## §7. Changes. -/

theorem isDiskError_changes (h : IsDiskError s.scan) : IsDiskError s.changes := by
  obtain ⟨path, e, hscan⟩ := h
  unfold DirectoryStore.changes
  rw [hscan]
  exact ⟨path, e, rfl⟩

/-- The digests of the records that were found. -/
def foundDigests (found : Table Name (String × String)) : Table Name Digest :=
  found.mapValues fun record => Digest.ofText record.2

/-- What has changed is what is not found as it was last seen. -/
theorem changes_of_scan {found : Table Name (String × String)} (h : s.scan = .ok found) :
    ∃ names, s.changes = .ok names ∧
      ∀ name, name ∈ names ↔ s.seen.find? name ≠ (foundDigests found).find? name := by
  unfold DirectoryStore.changes
  rw [h]
  refine ⟨_, rfl, fun name => ?_⟩
  have hchanged : name ∈ (found.entries.filter fun e =>
      s.seen.find? e.1 ≠ some (Digest.ofText e.2.2)).map (·.1) ↔ ∃ record,
        found.find? name = some record ∧ s.seen.find? name ≠ some (Digest.ofText record.2) := by
    rw [List.mem_map]
    constructor
    · rintro ⟨⟨type, record⟩, hmem, rfl⟩
      obtain ⟨hentry, hdiffers⟩ := List.mem_filter.1 hmem
      exact ⟨record, Table.find?_eq_some_iff.2 hentry, by simpa using hdiffers⟩
    · rintro ⟨record, hrecord, hdiffers⟩
      refine ⟨_, List.mem_filter.2 ⟨Table.find?_eq_some_iff.1 hrecord, ?_⟩, rfl⟩
      simpa using hdiffers
  have hgone : name ∈ (s.seen.keys.filter fun name => !found.contains name) ↔
      (∃ d, s.seen.find? name = some d) ∧ found.find? name = none := by
    rw [List.mem_filter, Table.mem_keys_iff]
    unfold Table.contains
    simp
  rw [mem_sortedNames, List.mem_append, hchanged, hgone]
  unfold foundDigests
  rw [Table.find?_mapValues]
  cases found.find? name with
  | none =>
    rw [Option.map_none, Option.ne_none_iff_exists']
    simp
  | some record => simp

/-- What has changed is what is not held as it was last seen. -/
theorem Holds.changes (h : s.Holds records) (hscan : ¬ IsDiskError s.scan) :
    ∃ names, s.changes = .ok names ∧
      ∀ name, name ∈ names ↔ s.seen.find? name ≠ (records.mapValues Digest.ofText).find? name := by
  obtain ⟨found, hfound, hfind⟩ := h.scan hscan
  obtain ⟨names, hchanges, hmem⟩ := changes_of_scan hfound
  refine ⟨names, hchanges, fun name => (hmem name).trans ?_⟩
  unfold foundDigests
  rw [Table.find?_mapValues, hfind, Table.find?_mapValues]
  unfold recordAt?
  rw [Option.map_map]
  rfl

end LogicBoard.DirectoryStore
