/-
  LogicBoard.Store.Disk
  ────────────────────────────────
  **FILES AND DIRECTORIES.**

  A disk holds files and directories by their place, the list of the names on
  the way from the root.  Operations take paths, which are followed part by
  part: every part but the last has to be a directory, and two dots lead back
  to the directory above.
-/
import LogicBoard.Store.Path
import LogicBoard.Table
import LogicBoard.Text.Bytes

namespace LogicBoard

/-! ## §1. Disks. -/

/-- What there is at a place. -/
inductive Entry where
  | folder
  | text (s : String)
  /-- A file that is not text. -/
  | raw (bytes : ByteArray)

/-- The file with these bytes. -/
def Entry.ofBytes (bytes : ByteArray) : Entry :=
  match String.fromUTF8? bytes with
  | some s => .text s
  | none => .raw bytes

/-- What a file shows as text; `none` for a directory. -/
def Entry.shown? : Entry → Option String
  | .folder => none
  | .text s => some s
  | .raw bytes => some (Text.ofBytes bytes)

/-- A place: the names from the root. -/
abbrev Place := List String

/-- Places are ordered by their names from the root on. -/
instance : LE Place := List.instLE

/-- Files and directories by place, and the directory that relative paths lead on from. -/
structure Disk where
  home : Place
  entries : Table Place Entry

/-- Why an operation on a disk failed. -/
inductive DiskError where
  | notFound
  | exists
  | notFolder
  | isFolder
  | longName
  | badName
  | notText
deriving DecidableEq, Inhabited

/-- The words for a failure. -/
def DiskError.text : DiskError → String
  | notFound => "No such file or directory (os error 2)"
  | .exists => "File exists (os error 17)"
  | notFolder => "Not a directory (os error 20)"
  | isFolder => "Is a directory (os error 21)"
  | longName => "File name too long (os error 36)"
  | badName => "file name contained an unexpected NUL byte"
  | notText => "stream did not contain valid UTF-8"

namespace Disk

/-- A disk with one empty directory, where relative paths begin. -/
def ofHome (home : Place) : Disk := ⟨home, .ofList [(home, .folder)]⟩

/-- The path of the directory where relative paths begin. -/
def homePath (d : Disk) : String := "/" ++ "/".intercalate d.home

/-- What there is at a place; the root is always there. -/
def entryAt? (d : Disk) (p : Place) : Option Entry :=
  if p.isEmpty then some .folder else d.entries.find? p

/-- The disk with something at a place. -/
def put (d : Disk) (p : Place) (e : Entry) : Disk := { d with entries := d.entries.insert p e }

/-! ## §2. Following paths. -/

/-- The longest name in bytes. -/
def longestName : Nat := 255

/-- The longest path in bytes. -/
def longestPath : Nat := 4095

/-- The place where one more part of a path leads. -/
def step (d : Disk) (p : Place) (part : String) : Except DiskError Place :=
  match d.entryAt? p with
  | none => .error .notFound
  | some .folder =>
    if part = ".." then .ok p.dropLast
    else if longestName < part.utf8ByteSize then .error .longName
    else .ok (p ++ [part])
  | some _ => .error .notFolder

/-- Refuses paths that no system call takes. -/
def checkPath (path : String) : Except DiskError Unit :=
  if path.isEmpty then .error .notFound
  else if path.toList.contains '\x00' then .error .badName
  else if longestPath < path.utf8ByteSize then .error .longName
  else .ok ()

/-- The directory where a path begins. -/
def origin (d : Disk) (path : String) : Place := if Path.isAbsolute path then [] else d.home

/-- The place that a path leads to; what is there is not looked at. -/
def locate (d : Disk) (path : String) : Except DiskError Place := do
  checkPath path
  (Path.parts path).foldlM d.step (d.origin path)

/-- What there is where a path leads. -/
def find (d : Disk) (path : String) : Except DiskError (Place × Entry) := do
  let p ← d.locate path
  match d.entryAt? p with
  | none => .error .notFound
  | some .folder => .ok (p, .folder)
  | some e => if Path.isFolderLike path then .error .notFolder else .ok (p, e)

/-- Does the path lead to a file? -/
def isFile (d : Disk) (path : String) : Bool :=
  match d.find path with
  | .ok (_, .folder) | .error _ => false
  | .ok _ => true

/-! ## §3. Operations. -/

/-- The text of a file. -/
def readText (d : Disk) (path : String) : Except DiskError String := do
  match ← d.find path with
  | (_, .text s) => .ok s
  | (_, .folder) => .error .isFolder
  | (_, .raw _) => .error .notText

/-- The name of the entry at a place, if it is right inside a directory. -/
def nameIn? (folder p : Place) : Option String :=
  if p.dropLast = folder then p.getLast? else none

/-- The names of the entries of a directory. -/
def list (d : Disk) (path : String) : Except DiskError (List String) := do
  match ← d.find path with
  | (p, .folder) => .ok (d.entries.keys.filterMap (nameIn? p))
  | _ => .error .notFolder

/-- Makes or replaces a file. -/
def write (d : Disk) (path : String) (e : Entry) : Except DiskError Disk := do
  let p ← d.locate path
  match d.entryAt? p with
  | some .folder => .error .isFolder
  | some _ => if Path.isFolderLike path then .error .notFolder else .ok (d.put p e)
  | none => if Path.isFolderLike path then .error .isFolder else .ok (d.put p e)

/-- Makes or replaces a file of text. -/
def writeText (d : Disk) (path s : String) : Except DiskError Disk := d.write path (.text s)

/-- Deletes a file. -/
def remove (d : Disk) (path : String) : Except DiskError Disk := do
  match ← d.find path with
  | (_, .folder) => .error .isFolder
  | (p, _) => .ok { d with entries := d.entries.erase p }

/-- Makes the directories on a way that are missing. -/
def makeFoldersFrom (d : Disk) (p : Place) : List String → Except DiskError Unit × Disk
  | [] => (.ok (), d)
  | part :: rest =>
    match d.step p part with
    | .error e => (.error e, d)
    | .ok q =>
      match d.entryAt? q with
      | some .folder => d.makeFoldersFrom q rest
      | some _ => (.error (if rest.isEmpty then .exists else .notFolder), d)
      | none => (d.put q .folder).makeFoldersFrom q rest

/-- Makes the directory at a path and all directories on the way that are missing. -/
def makeFolders (d : Disk) (path : String) : Except DiskError Unit × Disk :=
  if path.isEmpty then (.ok (), d)
  else
    match checkPath path with
    | .error e => (.error e, d)
    | .ok () => d.makeFoldersFrom (d.origin path) (Path.parts path)

/-- Makes or replaces a file and makes the directories on the way to it; a path where no file can
be changes nothing. -/
def place (d : Disk) (path : String) (e : Entry) : Disk :=
  let d := (d.makeFolders (Path.parent path)).2
  (d.write path e).toOption.getD d

/-- What the files below the home directory show as text, by their paths from there. -/
def files (d : Disk) : List (String × String) :=
  d.entries.entries.filterMap fun e => do
    let s ← e.2.shown?
    if d.home.isPrefixOf e.1 then some ("/".intercalate (e.1.drop d.home.length), s) else none

/-- The files that are new or different from those of an earlier disk. -/
def changedFiles (before after : Disk) : List (String × String) :=
  after.files.filter fun f => before.files.lookup f.1 ≠ some f.2

end Disk

end LogicBoard
