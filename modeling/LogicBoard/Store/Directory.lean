/-
  LogicBoard.Store.Directory
  ────────────────────────────────
  **A STORE IN A DIRECTORY.**

  Each type has a file of its own, whose name is made of a stem, the name of
  the type and `.json`.  The store remembers the digest of every record that
  it has read or written, so it can tell what others have changed since.
-/
import LogicBoard.Digest
import LogicBoard.Store.Basic

namespace LogicBoard

/-- A directory with records, on a disk that others use as well. -/
structure DirectoryStore where
  disk : Disk
  /-- The path of the directory, which is made when something is saved. -/
  dir : String
  /-- What file names of records begin with. -/
  stem : String
  /-- The digests of the records as they were last read or written. -/
  seen : Table Name Digest

namespace DirectoryStore

/-! ## §1. Files. -/

/-- A store that has not seen anything yet. -/
def ofDir (disk : Disk) (dir stem : String) : DirectoryStore := ⟨disk, dir, stem, .empty⟩

/-- What file names of records end with. -/
def ending : String := ".json"

/-- The file of a type. -/
def pathOf (s : DirectoryStore) (name : Name) : String :=
  Path.join s.dir (s.stem ++ name.text ++ ending)

/-- What is left of a text without its beginning. -/
def dropStem? (stem : List Char) (cs : List Char) : Option (List Char) :=
  if stem.isPrefixOf cs then some (cs.drop stem.length) else none

/-- The type whose record a file is. -/
def nameOf? (s : DirectoryStore) (file : String) : Option Name := do
  let rest ← dropStem? s.stem.toList file.toList
  let back ← dropStem? ending.toList.reverse rest.reverse
  if back.isEmpty then none else some (.ofText (String.ofList back.reverse))

/-- The text of a file; `none` if there is no such file. -/
def read (s : DirectoryStore) (path : String) : Except StoreError (Option String) :=
  match s.disk.readText path with
  | .ok text => .ok (some text)
  | .error .notFound => .ok none
  | .error e => .error (.disk path e)

/-- Adds the record in a file, if it is the record of a type. -/
def scanFile (s : DirectoryStore) (records : Table Name (String × String)) (file : String) :
    Except StoreError (Table Name (String × String)) :=
  match s.nameOf? file with
  | none => .ok records
  | some name => do
    let path := Path.join s.dir file
    match ← s.read path with
    | none => .ok records
    | some text => .ok (records.insert name (path, text))

/-- All records with the paths of their files. -/
def scan (s : DirectoryStore) : Except StoreError (Table Name (String × String)) :=
  match s.disk.list s.dir with
  | .ok files => files.foldlM s.scanFile .empty
  | .error .notFound => .ok .empty
  | .error e => .error (.disk s.dir e)

/-! ## §2. Requests. -/

/-- Remembers the digest of a record. -/
def see (s : DirectoryStore) (name : Name) (text : String) : DirectoryStore :=
  { s with seen := s.seen.insert name (Digest.ofText text) }

/-- Forgets about a record. -/
def unsee (s : DirectoryStore) (name : Name) : DirectoryStore :=
  { s with seen := s.seen.erase name }

/-- Reads records one by one up to one that is invalid. -/
def readRecords (s : DirectoryStore) :
    List (Name × String × String) → Except StoreError (List (Name × ChipType)) × DirectoryStore
  | [] => (.ok [], s)
  | (name, path, text) :: rest =>
    match ChipType.ofRecordText path text with
    | .error e => (.error e, s)
    | .ok t =>
      let (result, s) := (s.see name text).readRecords rest
      (result.map ((name, t) :: ·), s)

/-- All types. -/
def loadAll (s : DirectoryStore) : Except StoreError (List (Name × ChipType)) × DirectoryStore :=
  match s.scan with
  | .error e => (.error e, s)
  | .ok records => { s with seen := .empty }.readRecords records.entries

/-- One type. -/
def load (s : DirectoryStore) (name : Name) : Except StoreError (Option ChipType) × DirectoryStore :=
  let path := s.pathOf name
  match s.read path with
  | .error e => (.error e, s)
  | .ok none => (.ok none, s.unsee name)
  | .ok (some text) =>
    match ChipType.ofRecordText path text with
    | .error e => (.error e, s)
    | .ok t => (.ok (some t), s.see name text)

/-- Keeps a type. -/
def save (s : DirectoryStore) (name : Name) (t : ChipType) :
    Except StoreError Unit × DirectoryStore :=
  match s.disk.makeFolders s.dir with
  | (.error e, disk) => (.error (.disk s.dir e), { s with disk })
  | (.ok (), disk) =>
    let path := s.pathOf name
    match disk.writeText path t.recordText with
    | .error e => (.error (.disk path e), { s with disk })
    | .ok disk => (.ok (), { s with disk }.see name t.recordText)

/-- Keeps a type no longer. -/
def remove (s : DirectoryStore) (name : Name) : Except StoreError Unit × DirectoryStore :=
  let path := s.pathOf name
  match s.disk.remove path with
  | .ok disk => (.ok (), { s with disk }.unsee name)
  | .error .notFound => (.ok (), s.unsee name)
  | .error e => (.error (.disk path e), s)

/-- The names whose records are not as they were last seen. -/
def changes (s : DirectoryStore) : Except StoreError (List Name) := do
  let records ← s.scan
  let changed := records.entries.filter fun e => s.seen.find? e.1 ≠ some (Digest.ofText e.2.2)
  let gone := s.seen.keys.filter fun name => !records.contains name
  return sortedNames (changed.map (·.1) ++ gone)

instance : TypeStore DirectoryStore where
  loadAll s := s.loadAll
  load s name := s.load name
  save s name t := s.save name t
  remove s name := s.remove name
  changes s := (s.changes, s)

end DirectoryStore

end LogicBoard
