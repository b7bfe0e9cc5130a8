/-
  LogicBoard.Proofs.Store.Directory
  ────────────────────────────────
  **A DIRECTORY WITH RECORDS.**

  Each type has one file, right in the directory.  The directory may not be
  there yet; once it is there, it stays where it is, since nothing but
  records is written or deleted in it.

  Main statements:
    • `isFile_fileOf` — a name that is found again names one file,
    • `locate_pathOf_iff` — where the path of that file leads,
    • `Kept.made` — making the directory brings no records with it,
    • `Rewrites.onDisk`, `Rewrites.kept` — what becomes of the records when
      one file is changed.
-/
import LogicBoard.Proofs.Store.Disk
import LogicBoard.Proofs.Store.Path
import LogicBoard.Proofs.Text.Case
import LogicBoard.Store.Directory

namespace LogicBoard.DirectoryStore

variable {s : DirectoryStore} {name : Name}

/-! ## §1. Names and files. -/

/-- The file of a type in the directory. -/
def fileOf (s : DirectoryStore) (name : Name) : String := s.stem ++ name.text ++ ending

/-- The file of the type is told to be the type's. -/
def IsRecordName (s : DirectoryStore) (name : Name) : Prop :=
  s.nameOf? (Path.fileName (s.pathOf name)) = some name

instance (s : DirectoryStore) (name : Name) : Decidable (s.IsRecordName name) :=
  inferInstanceAs (Decidable (_ = _))

theorem toList_fileOf (s : DirectoryStore) (name : Name) :
    (s.fileOf name).toList = s.stem.toList ++ name.text.toList ++ ending.toList := by
  unfold fileOf
  rw [String.toList_append, String.toList_append]

/-- Different types have different files. -/
theorem fileOf_injective {other : Name} (h : s.fileOf name = s.fileOf other) : name = other := by
  have hlist := congrArg String.toList h
  rw [toList_fileOf, toList_fileOf, List.append_left_inj, List.append_right_inj] at hlist
  exact congrArg Name.mk (String.toList_inj.1 hlist)

theorem dropStem?_eq_some_iff {stem cs rest : List Char} :
    dropStem? stem cs = some rest ↔ cs = stem ++ rest := by
  unfold dropStem?
  constructor
  · intro h
    split at h
    · rename_i hprefix
      obtain ⟨tail, rfl⟩ := List.isPrefixOf_iff_prefix.1 hprefix
      rw [List.drop_left] at h
      rw [Option.some.inj h]
    · exact absurd h (by simp)
  · rintro rfl
    rw [if_pos (List.isPrefixOf_iff_prefix.2 (List.prefix_append stem rest)), List.drop_left]

/-- A record is told by what its file name begins and ends with. -/
theorem nameOf?_eq_some_iff {file : String} : s.nameOf? file = some name ↔
    ∃ mid, mid ≠ [] ∧ file.toList = s.stem.toList ++ mid ++ ending.toList ∧
      Name.ofText (String.ofList mid) = name := by
  unfold nameOf?
  simp only [Option.bind_eq_bind, Option.bind_eq_some_iff, dropStem?_eq_some_iff]
  constructor
  · rintro ⟨rest, hfile, back, hback, hname⟩
    split at hname
    · exact absurd hname (by simp)
    · rename_i hne
      have hrest : rest = back.reverse ++ ending.toList := by
        rw [← List.reverse_inj, hback, List.reverse_append, List.reverse_reverse]
      refine ⟨back.reverse, ?_, ?_, Option.some.inj hname⟩
      · simpa using hne
      · rw [hfile, hrest, List.append_assoc]
  · rintro ⟨mid, hne, hfile, hname⟩
    refine ⟨mid ++ ending.toList, by rw [hfile, List.append_assoc], mid.reverse, ?_, ?_⟩
    · rw [List.reverse_append]
    · rw [if_neg (by simpa using hne), List.reverse_reverse, hname]

theorem isFile_of_toList {file : String} {front : List Char}
    (hfile : file.toList = front ++ ending.toList) (hslash : '/' ∉ file.toList) :
    Path.IsFile file := by
  have hlength : 5 ≤ file.toList.length := by
    rw [hfile, List.length_append]
    exact Nat.le_add_left 5 _
  refine ⟨hslash, ?_, ?_, ?_⟩ <;> rintro rfl <;> exact absurd hlength (by decide)

/-- The file of a type that is found again is a single part of a path. -/
theorem isFile_fileOf (h : s.IsRecordName name) : Path.IsFile (s.fileOf name) := by
  refine isFile_of_toList (s.toList_fileOf name) fun hslash => ?_
  obtain ⟨mid, -, hfile, hname⟩ := nameOf?_eq_some_iff.1 h
  have hplain : '/' ∉ s.stem.toList ++ mid ++ ending.toList :=
    hfile ▸ Path.not_mem_fileName (s.pathOf name)
  rw [List.mem_append, List.mem_append, not_or, not_or] at hplain
  -- A slash could only be in the name.  What follows the last one is then the file.
  have hmem : '/' ∈ name.text.toList := by
    rw [toList_fileOf, List.mem_append, List.mem_append] at hslash
    exact (hslash.resolve_right hplain.2).resolve_left hplain.1.1
  obtain ⟨tail, front, hsplit, htail⟩ := List.eq_append_cons_of_mem (List.mem_reverse.2 hmem)
  have htext : name.text.toList = front.reverse ++ '/' :: tail.reverse := by
    rw [← List.reverse_inj, hsplit]
    simp
  obtain ⟨before, hpath⟩ := Path.exists_join_suffix s.dir (s.fileOf name)
  have hlast : Path.IsFile (String.ofList (tail.reverse ++ ending.toList)) := by
    refine isFile_of_toList (String.toList_ofList) ?_
    rw [String.toList_ofList, List.mem_append, List.mem_reverse, not_or]
    exact ⟨htail, hplain.2⟩
  have hpath' : (s.pathOf name).toList = (before ++ s.stem.toList ++ front.reverse)
      ++ '/' :: (String.ofList (tail.reverse ++ ending.toList)).toList := by
    rw [String.toList_ofList]
    refine hpath.trans ?_
    rw [toList_fileOf, htext]
    simp only [List.append_assoc, List.cons_append]
  rw [Path.fileName_of_toList hlast hpath', String.toList_ofList, List.append_left_inj] at hfile
  -- So the name is what it is told from, which is only a part of itself.
  have hmid : name.text.toList = mid := by
    have hlower : Text.lower (String.ofList mid) = name.text := congrArg Name.text hname
    have hpicked : ∀ c ∈ mid, c ∈ (Text.lower (String.ofList mid)).toList := by
      intro c hc
      rw [hlower, htext, hfile]
      simp [hc]
    rw [← hlower, Text.lower_of_mem hpicked, String.toList_ofList]
  have hlength := congrArg List.length htext
  rw [hmid, hfile] at hlength
  simp only [List.length_append, List.length_cons] at hlength
  omega

theorem nameOf?_fileOf (hdir : s.dir ≠ "") (h : s.IsRecordName name) :
    s.nameOf? (s.fileOf name) = some name := by
  obtain ⟨front, hjoin, -⟩ := Path.exists_join hdir (isFile_fileOf h).slash
  have hfile : Path.fileName (s.pathOf name) = s.fileOf name :=
    Path.fileName_of_toList (isFile_fileOf h) hjoin
  rw [← hfile]
  exact h

/-! ## §2. Where the directory is. -/

/-- The directory is at the place. -/
def IsAt (s : DirectoryStore) (p : Place) : Prop :=
  s.disk.follow (s.disk.origin s.dir) (Path.parts s.dir) = .ok p ∧ s.disk.entryAt? p = some .folder

theorem IsAt.leads {p : Place} (h : s.IsAt p) :
    s.disk.follow (s.disk.origin s.dir) (Path.parts s.dir) = .ok p := h.1

theorem IsAt.folder {p : Place} (h : s.IsAt p) : s.disk.entryAt? p = some .folder := h.2

theorem IsAt.unique {p q : Place} (hp : s.IsAt p) (hq : s.IsAt q) : p = q :=
  Except.ok.inj (hp.leads.symm.trans hq.leads)

/-- The path of the type's file is one that a system call takes, and so is the file's name. -/
def IsShort (s : DirectoryStore) (name : Name) : Prop :=
  Disk.checkPath (s.pathOf name) = .ok () ∧ ¬ Disk.longestName < (s.fileOf name).utf8ByteSize

/-- The path of a type begins where the path of the directory does. -/
theorem origin_pathOf (hdir : s.dir ≠ "") (hfile : Path.isAbsolute (s.fileOf name) = false) :
    s.disk.origin (s.pathOf name) = s.disk.origin s.dir := by
  have habsolute : Path.isAbsolute (s.pathOf name) = Path.isAbsolute s.dir :=
    Path.isAbsolute_join hdir hfile
  unfold Disk.origin
  rw [habsolute]

/-- The path of a file in the directory leads right into it. -/
theorem locate_iff_of_isFile (hdir : s.dir ≠ "") (hfile : Path.IsFile (s.fileOf name)) {q : Place} :
    s.disk.locate (s.pathOf name) = .ok q ↔
      s.IsShort name ∧ ∃ p, s.IsAt p ∧ q = p ++ [s.fileOf name] := by
  have hparts : Path.parts (s.pathOf name) = Path.parts s.dir ++ [s.fileOf name] :=
    Path.parts_join hdir hfile
  have horigin := origin_pathOf hdir (Path.isAbsolute_eq_false hfile.slash)
  rw [Disk.locate_ok_iff, hparts, horigin, Disk.follow_append]
  unfold IsShort
  constructor
  · rintro ⟨hcheck, p, hp, hstep⟩
    have hfolder := Disk.folder_of_step hstep
    rw [Disk.step_eq hfolder, if_neg hfile.dots] at hstep
    split at hstep
    · exact absurd hstep (by simp)
    · rename_i hshort
      exact ⟨⟨hcheck, hshort⟩, p, ⟨hp, hfolder⟩, (Except.ok.inj hstep).symm⟩
  · rintro ⟨⟨hcheck, hshort⟩, p, hp, rfl⟩
    refine ⟨hcheck, p, hp.leads, ?_⟩
    rw [Disk.step_eq hp.folder, if_neg hfile.dots, if_neg hshort]

theorem locate_pathOf_iff (hdir : s.dir ≠ "") (h : s.IsRecordName name) {q : Place} :
    s.disk.locate (s.pathOf name) = .ok q ↔
      s.IsShort name ∧ ∃ p, s.IsAt p ∧ q = p ++ [s.fileOf name] :=
  locate_iff_of_isFile hdir (isFile_fileOf h)

/-- The record of a type as it is on the disk. -/
def onDisk (s : DirectoryStore) (name : Name) : Option String :=
  (s.disk.readText (s.pathOf name)).toOption

theorem toOption_eq_some_iff {ε α : Type} {x : Except ε α} {a : α} :
    x.toOption = some a ↔ x = .ok a := by
  cases x <;> simp [Except.toOption]

theorem onDisk_eq_some_iff (hdir : s.dir ≠ "") (h : s.IsRecordName name) {text : String} :
    s.onDisk name = some text ↔ s.IsShort name ∧
      ∃ p, s.IsAt p ∧ s.disk.entryAt? (p ++ [s.fileOf name]) = some (.text text) := by
  obtain ⟨front, hjoin, -⟩ := Path.exists_join hdir (isFile_fileOf h).slash
  have hpath : Path.isFolderLike (s.pathOf name) = false :=
    Path.isFolderLike_of_toList (isFile_fileOf h) hjoin
  unfold onDisk
  rw [toOption_eq_some_iff, Disk.readText_ok_iff hpath]
  simp only [locate_pathOf_iff hdir h]
  constructor
  · rintro ⟨q, ⟨hshort, p, hp, rfl⟩, hentry⟩
    exact ⟨hshort, p, hp, hentry⟩
  · rintro ⟨hshort, p, hp, hentry⟩
    exact ⟨_, ⟨hshort, p, hp, rfl⟩, hentry⟩

/-! ## §3. Directories that only hold records. -/

/-- Where the directory is, nothing looks like a record. -/
def HasNoRecords (s : DirectoryStore) : Prop :=
  ∀ p, s.IsAt p → ∀ file name, s.nameOf? file = some name → s.disk.entryAt? (p ++ [file]) = none

/-- The directory is at one place only, so it is enough to look there. -/
theorem hasNoRecords_of_isAt {p : Place} (hp : s.IsAt p)
    (h : ∀ file name, s.nameOf? file = some name → s.disk.entryAt? (p ++ [file]) = none) :
    s.HasNoRecords := by
  intro q hq
  obtain rfl := hp.unique hq
  exact h

/-- What looks like a record at the place is the record of a type. -/
def Owns (s : DirectoryStore) (p : Place) : Prop :=
  ∀ file name e, s.nameOf? file = some name → s.disk.entryAt? (p ++ [file]) = some e →
    file = s.fileOf name ∧ s.IsRecordName name ∧ ∃ text, s.onDisk name = some text

/-- The directory is there and only holds records, or it is still to be made. -/
inductive Kept (s : DirectoryStore) : Prop where
  | found (p : Place) (there : s.IsAt p) (own : s.Owns p)
  | missing (away : ∀ p, ¬ s.IsAt p)
      (bare : ∀ disk, s.disk.makeFolders s.dir = (.ok (), disk) → HasNoRecords { s with disk })

/-- A directory that is there only holds records. -/
theorem Kept.owns (h : s.Kept) {p : Place} (hp : s.IsAt p) : s.Owns p := by
  cases h with
  | found q there own => exact there.unique hp ▸ own
  | missing away bare => exact absurd hp (away p)

/-- A directory that is there is not made again. -/
theorem makeFolders_of_isAt (hdir : s.dir ≠ "") {p : Place} (hp : s.IsAt p) :
    (s.disk.makeFolders s.dir).2 = s.disk := by
  cases hcheck : Disk.checkPath s.dir with
  | error e =>
    unfold Disk.makeFolders
    rw [if_neg (by simpa using hdir), hcheck]
  | ok =>
    rw [Disk.makeFolders_eq (Disk.locate_ok_iff.2 ⟨hcheck, hp.leads⟩) hp.folder]

/-- A directory in which nothing looks like a record once it is made. -/
theorem kept_of_hasNoRecords (hdir : s.dir ≠ "")
    (h : HasNoRecords { s with disk := (s.disk.makeFolders s.dir).2 }) : s.Kept := by
  by_cases hthere : ∃ p, s.IsAt p
  · obtain ⟨p, hp⟩ := hthere
    rw [makeFolders_of_isAt hdir hp] at h
    refine .found p hp fun file name e hname hentry => ?_
    have hnone := h p hp file name hname
    exact absurd (hnone.symm.trans hentry) (by simp)
  · refine .missing (fun p hp => hthere ⟨p, hp⟩) fun disk hmade => ?_
    rw [hmade] at h
    exact h

theorem onDisk_of_missing (hdir : s.dir ≠ "") (h : s.IsRecordName name)
    (away : ∀ p, ¬ s.IsAt p) : s.onDisk name = none := by
  by_contra hsome
  obtain ⟨text, htext⟩ := Option.ne_none_iff_exists'.1 hsome
  obtain ⟨-, p, hp, -⟩ := (onDisk_eq_some_iff hdir h).1 htext
  exact away p hp

theorem onDisk_of_hasNoRecords (hdir : s.dir ≠ "") (h : s.HasNoRecords)
    (hname : s.IsRecordName name) : s.onDisk name = none := by
  by_contra hsome
  obtain ⟨text, htext⟩ := Option.ne_none_iff_exists'.1 hsome
  obtain ⟨-, p, hp, hentry⟩ := (onDisk_eq_some_iff hdir hname).1 htext
  have hnone := h p hp (s.fileOf name) name (nameOf?_fileOf hdir hname)
  exact absurd (hnone.symm.trans hentry) (by simp)

/-- A directory that is made was nowhere before, or it was there all the time. -/
theorem makeFolders_ok_of_isAt (hdir : s.dir ≠ "") {p : Place}
    (hp : IsAt { s with disk := (s.disk.makeFolders s.dir).2 } p) :
    s.IsAt p ∨ (s.disk.makeFolders s.dir).1 = .ok () := by
  cases hcheck : Disk.checkPath s.dir with
  | error e =>
    have herror : s.disk.makeFolders s.dir = (.error e, s.disk) := by
      unfold Disk.makeFolders
      rw [if_neg (by simpa using hdir), hcheck]
    rw [herror] at hp
    exact Or.inl hp
  | ok =>
    have hlocate := Disk.locate_ok_iff.2 ⟨hcheck, hp.leads⟩
    rw [← Disk.makeFolders_again, Disk.makeFolders_eq hlocate hp.folder]
    exact Or.inr rfl

/-- Making the directory, as far as that goes, brings no records with it. -/
theorem Kept.made (h : s.Kept) (hdir : s.dir ≠ "") :
    Kept { s with disk := (s.disk.makeFolders s.dir).2 } ∧ ∀ other, s.IsRecordName other →
      DirectoryStore.onDisk { s with disk := (s.disk.makeFolders s.dir).2 } other
        = s.onDisk other := by
  cases h with
  | found p there own =>
    rw [makeFolders_of_isAt hdir there]
    exact ⟨.found p there own, fun _ _ => rfl⟩
  | missing away bare =>
    have hbare : HasNoRecords { s with disk := (s.disk.makeFolders s.dir).2 } := by
      intro p hp
      have hmade := (makeFolders_ok_of_isAt hdir hp).resolve_left (away p)
      exact bare _ (Prod.ext hmade rfl) p hp
    constructor
    · refine kept_of_hasNoRecords hdir ?_
      dsimp only
      rw [Disk.makeFolders_again]
      exact hbare
    · intro other hother
      rw [onDisk_of_missing hdir hother away]
      exact onDisk_of_hasNoRecords hdir hbare hother

/-! ## §4. Changing one file. -/

/-- The disks differ at most in the type's file, which holds a text or is not there. -/
structure Rewrites (s : DirectoryStore) (p : Place) (name : Name) (o : Option String)
    (disk : Disk) : Prop where
  home : disk.home = s.disk.home
  keeps : s.disk.Keeps disk
  entries : ∀ q, disk.entryAt? q
    = if p ++ [s.fileOf name] = q then o.map .text else s.disk.entryAt? q

theorem rewrites_put {p : Place} (h : s.disk.entryAt? (p ++ [s.fileOf name]) ≠ some .folder)
    (text : String) :
    s.Rewrites p name (some text) (s.disk.put (p ++ [s.fileOf name]) (.text text)) where
  home := rfl
  keeps := Disk.keeps_put (by simp) h _
  entries := Disk.entryAt?_put (by simp) _

theorem rewrites_erase {p : Place} (h : s.disk.entryAt? (p ++ [s.fileOf name]) ≠ some .folder) :
    s.Rewrites p name none
      { s.disk with entries := s.disk.entries.erase (p ++ [s.fileOf name]) } where
  home := rfl
  keeps := Disk.keeps_erase (by simp) h
  entries := Disk.entryAt?_erase (by simp)

variable {p : Place} {o : Option String} {disk : Disk}

/-- The directory stays where it is. -/
theorem Rewrites.isAt (h : s.Rewrites p name o disk) (hp : s.IsAt p) : IsAt { s with disk } p := by
  refine ⟨?_, h.keeps p hp.folder⟩
  have horigin : disk.origin s.dir = s.disk.origin s.dir := by
    unfold Disk.origin
    rw [h.home]
  show disk.follow (disk.origin s.dir) (Path.parts s.dir) = .ok p
  rw [horigin]
  exact Disk.follow_of_keeps h.keeps hp.leads

/-- The records of all other types stay as they are. -/
theorem Rewrites.onDisk (h : s.Rewrites p name o disk) (hdir : s.dir ≠ "") (hp : s.IsAt p)
    (hshort : o ≠ none → s.IsShort name) {other : Name} (hother : s.IsRecordName other) :
    DirectoryStore.onDisk { s with disk } other = if other = name then o else s.onDisk other := by
  refine Option.ext fun text => ?_
  have hafter : DirectoryStore.onDisk { s with disk } other = some text ↔
      s.IsShort other ∧ disk.entryAt? (p ++ [s.fileOf other]) = some (.text text) := by
    rw [onDisk_eq_some_iff (s := { s with disk }) hdir hother]
    refine and_congr_right fun _ => ?_
    constructor
    · rintro ⟨q, hq, hentry⟩
      obtain rfl := (h.isAt hp).unique hq
      exact hentry
    · intro hentry
      exact ⟨p, h.isAt hp, hentry⟩
  rw [hafter, h.entries]
  by_cases heq : other = name
  · subst heq
    rw [if_pos rfl, if_pos rfl]
    constructor
    · rintro ⟨-, hentry⟩
      obtain ⟨t, ht, htext⟩ := Option.map_eq_some_iff.1 hentry
      obtain rfl := Entry.text.inj htext
      exact ht
    · rintro rfl
      exact ⟨hshort (by simp), rfl⟩
  · have hfile : ¬ p ++ [s.fileOf name] = p ++ [s.fileOf other] := by
      intro hplace
      rw [List.append_right_inj] at hplace
      exact heq (fileOf_injective (List.singleton_inj.1 hplace)).symm
    rw [if_neg heq, if_neg hfile, onDisk_eq_some_iff hdir hother]
    refine and_congr_right fun _ => ?_
    constructor
    · intro hentry
      exact ⟨p, hp, hentry⟩
    · rintro ⟨q, hq, hentry⟩
      obtain rfl := hp.unique hq
      exact hentry

/-- The directory still holds nothing but records. -/
theorem Rewrites.kept (h : s.Rewrites p name o disk) (hdir : s.dir ≠ "") (hp : s.IsAt p)
    (hname : ∀ other, s.nameOf? (s.fileOf name) = some other → s.IsRecordName name ∧ other = name)
    (hshort : o ≠ none → s.IsShort name) (hown : s.Owns p) : Kept { s with disk } := by
  refine .found p (h.isAt hp) fun file other e hfile hentry => ?_
  replace hentry : disk.entryAt? (p ++ [file]) = some e := hentry
  rw [h.entries] at hentry
  split at hentry
  · rename_i hplace
    rw [List.append_right_inj] at hplace
    obtain rfl := List.singleton_inj.1 hplace
    obtain ⟨text, ho, -⟩ := Option.map_eq_some_iff.1 hentry
    obtain ⟨hrecord, rfl⟩ := hname other hfile
    refine ⟨rfl, hrecord, text, ?_⟩
    rw [h.onDisk hdir hp hshort hrecord, if_pos rfl]
    exact ho
  · rename_i hplace
    obtain ⟨rfl, hother, text, htext⟩ := hown file other e hfile hentry
    refine ⟨rfl, hother, text, ?_⟩
    rw [h.onDisk hdir hp hshort hother, if_neg, htext]
    rintro rfl
    exact hplace rfl

end LogicBoard.DirectoryStore
