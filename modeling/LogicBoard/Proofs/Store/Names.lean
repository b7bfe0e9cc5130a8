/-
  LogicBoard.Proofs.Store.Names
  ────────────────────────────────
  **THE NAMES THAT FILES TELL.**

  The path of a type's file is made of the type's name, and a look through
  the directory makes names of files again.  With a slash in it a path leads
  elsewhere, and the file of a type without a name tells no type.

  Main statements:
    • `isRecordName_iff` — which types have a file in the directory that
      tells them,
    • `locate_injective` — names without slashes lead to places of their own,
    • `plain_of_loadAll` — which types can be found by a look through the
      directory.
-/
import LogicBoard.Proofs.Record.RoundTrip
import LogicBoard.Proofs.Store.Records

namespace LogicBoard.DirectoryStore

variable {s : DirectoryStore} {name : Name}

/-! ## §1. Names that files tell. -/

theorem not_mem_ending : '/' ∉ ending.toList := by decide

theorem isFile_append_ending {front : String} (h : '/' ∉ front.toList) :
    Path.IsFile (front ++ ending) := by
  refine isFile_of_toList String.toList_append ?_
  rw [String.toList_append, List.mem_append, not_or]
  exact ⟨h, not_mem_ending⟩

/-- Without slashes the file of a type is a single part of a path. -/
theorem isFile_of_plain (hstem : '/' ∉ s.stem.toList) (hname : '/' ∉ name.text.toList) :
    Path.IsFile (s.fileOf name) := by
  refine isFile_append_ending ?_
  rw [String.toList_append, List.mem_append, not_or]
  exact ⟨hstem, hname⟩

/-- The file of a type tells the type, unless the name is empty. -/
theorem nameOf?_fileOf_iff (hname : name.IsFolded) {other : Name} :
    s.nameOf? (s.fileOf name) = some other ↔ name.text ≠ "" ∧ other = name := by
  have htext : Name.ofText (String.ofList name.text.toList) = name := by
    rw [String.ofList_toList]
    exact hname.ofText_text
  rw [nameOf?_eq_some_iff]
  constructor
  · rintro ⟨mid, hmid, hfile, hother⟩
    rw [toList_fileOf, List.append_left_inj, List.append_right_inj] at hfile
    obtain rfl := hfile
    exact ⟨fun hempty => hmid (String.toList_eq_nil_iff.2 hempty), hother.symm.trans htext⟩
  · rintro ⟨hempty, rfl⟩
    exact ⟨_, mt String.toList_eq_nil_iff.1 hempty, toList_fileOf s other, htext⟩

/-- The name is that of a type whose file is in the directory and tells the type. -/
theorem isRecordName_iff (hdir : s.dir ≠ "") (hname : name.IsFolded) : s.IsRecordName name ↔
    '/' ∉ s.stem.toList ∧ '/' ∉ name.text.toList ∧ name.text ≠ "" := by
  constructor
  · intro h
    have hslash := (isFile_fileOf h).slash
    rw [toList_fileOf, List.mem_append, List.mem_append, not_or, not_or] at hslash
    exact ⟨hslash.1.1, hslash.1.2,
      ((nameOf?_fileOf_iff hname).1 (nameOf?_fileOf hdir h)).1⟩
  · rintro ⟨hstem, hplain, hempty⟩
    have hfile := isFile_of_plain hstem hplain
    obtain ⟨front, hjoin, -⟩ := Path.exists_join hdir hfile.slash
    have hlast : Path.fileName (s.pathOf name) = s.fileOf name :=
      Path.fileName_of_toList hfile hjoin
    unfold IsRecordName
    rw [hlast]
    exact (nameOf?_fileOf_iff hname).2 ⟨hempty, rfl⟩

/-- Names without slashes lead to places of their own. -/
theorem locate_injective {other : Name} (hname : '/' ∉ name.text.toList)
    (hother : '/' ∉ other.text.toList) {p : Place} (h : s.disk.locate (s.pathOf name) = .ok p)
    (h' : s.disk.locate (s.pathOf other) = .ok p) : name = other := by
  obtain ⟨front, hfront⟩ := Path.exists_join_append s.dir s.stem
  obtain ⟨tail, htail, hparts⟩ := Path.exists_parts_append front
  -- What the name is put behind is the same for all names, up to the last slash of the path.
  have hlast : ∀ n : Name, '/' ∉ n.text.toList → s.disk.locate (s.pathOf n) = .ok p →
      p.getLast? = some (tail ++ (n.text ++ ending)) := by
    intro n hn hlocate
    have hback : '/' ∉ (n.text ++ ending).toList := (isFile_append_ending hn).slash
    have hfile : Path.IsFile (tail ++ (n.text ++ ending)) := by
      rw [← String.append_assoc]
      refine isFile_append_ending ?_
      rw [String.toList_append, List.mem_append, not_or]
      exact ⟨htail, hn⟩
    obtain ⟨before, hbefore⟩ := hparts _ hfile
    have hpath : s.pathOf n = front ++ (n.text ++ ending) := by
      unfold pathOf
      rw [String.append_assoc, hfront _ hback]
    rw [Disk.locate_ok_iff, hpath, hbefore, Disk.follow_append] at hlocate
    obtain ⟨-, q, -, hstep⟩ := hlocate
    rw [Disk.step_eq (Disk.folder_of_step hstep), if_neg hfile.dots] at hstep
    split at hstep
    · exact absurd hstep (by simp)
    · rw [← Except.ok.inj hstep, List.getLast?_concat]
  have hsame := Option.some.inj ((hlast name hname h).symm.trans (hlast other hother h'))
  have hlist := congrArg String.toList hsame
  simp only [String.toList_append, List.append_left_inj, List.append_right_inj] at hlist
  exact congrArg Name.mk (String.toList_inj.1 hlist)

/-- With a slash in it a name can lead to the place of another one. -/
example : Disk.locate (.ofHome ["home"]) (pathOf (.ofDir (.ofHome ["home"]) "." "") ⟨"./x"⟩)
    = Disk.locate (.ofHome ["home"]) (pathOf (.ofDir (.ofHome ["home"]) "." "") ⟨"x"⟩) := by
  decide +kernel

/-! ## §2. What is found. -/

/-- What a look through the directory finds is told by the name of a file in it. -/
theorem exists_file_of_foldlM {files : List String} {found after : Table Name (String × String)}
    (h : files.foldlM s.scanFile found = .ok after) {record : String × String}
    (hrecord : after.find? name = some record) :
    found.find? name = some record ∨ ∃ file ∈ files, s.nameOf? file = some name := by
  induction files generalizing found with
  | nil => exact Or.inl (Except.ok.inj h ▸ hrecord)
  | cons file rest ih =>
    rw [List.foldlM_cons, Fallible.bind_ok_iff] at h
    obtain ⟨next, hstep, hrest⟩ := h
    rcases ih hrest with hnext | ⟨other, hother, htold⟩
    · by_cases htold : s.nameOf? file = some name
      · exact Or.inr ⟨file, List.mem_cons_self, htold⟩
      · refine Or.inl ?_
        unfold scanFile at hstep
        split at hstep
        · exact Except.ok.inj hstep ▸ hnext
        · rename_i type htype
          obtain ⟨text?, -, hinsert⟩ := Fallible.bind_ok_iff.1 hstep
          cases text? with
          | none => exact Except.ok.inj hinsert ▸ hnext
          | some text =>
            obtain rfl := Except.ok.inj hinsert
            rw [Table.find?_insert, if_neg] at hnext
            · exact hnext
            · rintro rfl
              exact htold htype
    · exact Or.inr ⟨other, List.mem_cons_of_mem file hother, htold⟩

/-- The names of types that are read are those under which the records were found. -/
theorem map_fst_readRecords {l : List (Name × String × String)} {types : List (Name × ChipType)}
    (h : (s.readRecords l).1 = .ok types) : types.map (·.1) = l.map (·.1) := by
  induction l generalizing s types with
  | nil =>
    obtain rfl := Except.ok.inj h
    rfl
  | cons e rest ih =>
    unfold readRecords at h
    dsimp only at h
    split at h
    · exact absurd h (by simp)
    · obtain ⟨others, hothers, rfl⟩ := Fallible.map_ok_iff.1 h
      rw [List.map_cons, List.map_cons, ih hothers]

/-- A record that is found is told by the name of a file in a directory that is there. -/
theorem exists_file_of_scan {found : Table Name (String × String)} (h : s.scan = .ok found)
    {record : String × String} (hrecord : found.find? name = some record) :
    ∃ files, s.disk.list s.dir = .ok files ∧ ∃ file ∈ files, s.nameOf? file = some name := by
  have hempty : (Table.empty : Table Name (String × String)).find? name ≠ some record := by
    rw [Table.find?_empty]
    simp
  unfold DirectoryStore.scan at h
  cases hlist : s.disk.list s.dir with
  | ok files =>
    rw [hlist] at h
    exact ⟨files, rfl, (exists_file_of_foldlM h hrecord).resolve_left hempty⟩
  | error e =>
    rw [hlist] at h
    by_cases he : e = .notFound
    · subst he
      exact absurd (Except.ok.inj h ▸ hrecord) hempty
    · cases e <;> first | exact absurd rfl he | exact absurd h (by simp)

/-- From the empty path nothing leads on. -/
theorem ne_empty_of_list {d : Disk} {path : String} {files : List String}
    (h : d.list path = .ok files) : path ≠ "" := by
  rintro rfl
  obtain ⟨p, hlocate, -⟩ := Disk.list_ok h
  exact absurd (Disk.locate_ok_iff.1 hlocate).1 (by simp [Disk.checkPath])

/-- A type that is loaded with all others has a record that was found. -/
theorem exists_record_of_loadAll {types : List (Name × ChipType)} (h : s.loadAll.1 = .ok types)
    (hname : name ∈ types.map (·.1)) :
    ∃ found record, s.scan = .ok found ∧ found.find? name = some record := by
  unfold DirectoryStore.loadAll at h
  cases hscan : s.scan with
  | error e =>
    rw [hscan] at h
    exact absurd h (by simp)
  | ok found =>
    rw [hscan] at h
    rw [map_fst_readRecords h] at hname
    obtain ⟨record, hrecord⟩ := Table.mem_keys_iff.1 hname
    exact ⟨found, record, rfl, hrecord⟩

/-- On a disk without slashes in its names, a type that is found has a name without slashes, and so
has its file. -/
theorem plain_of_loadAll (hplain : s.disk.IsPlain) {types : List (Name × ChipType)}
    (h : s.loadAll.1 = .ok types) (hname : name ∈ types.map (·.1)) :
    s.dir ≠ "" ∧ '/' ∉ s.stem.toList ∧ '/' ∉ name.text.toList ∧ name.text ≠ "" := by
  obtain ⟨found, record, hscan, hrecord⟩ := exists_record_of_loadAll h hname
  obtain ⟨files, hlist, file, hfile, htold⟩ := exists_file_of_scan hscan hrecord
  obtain ⟨mid, hmid, htext, rfl⟩ := nameOf?_eq_some_iff.1 htold
  have hslash := hplain.list hlist file hfile
  rw [htext, List.mem_append, List.mem_append, not_or, not_or] at hslash
  refine ⟨ne_empty_of_list hlist, hslash.1.1, ?_, Text.lower_ne_empty (Text.ofList_ne_empty hmid)⟩
  refine Text.not_mem_lower ?_
  rw [String.toList_ofList]
  exact hslash.1.2

end LogicBoard.DirectoryStore
