/-
  LogicBoard.Store.Path
  ────────────────────────────────
  **PATHS OF FILES.**

  A path is a text with slashes between its parts.  It is absolute if it
  begins with a slash and otherwise leads on from some other directory.
  Empty parts and single dots count for nothing.
-/
namespace LogicBoard

namespace Path

/-- Does the path begin at the root? -/
def isAbsolute (path : String) : Bool := path.toList.head? = some '/'

/-- The path that leads on from a directory. -/
def join (dir path : String) : String :=
  if isAbsolute path || dir.isEmpty then path
  else if dir.toList.getLast? = some '/' then dir ++ path
  else dir ++ "/" ++ path

/-- The parts of a text between slashes. -/
def split : List Char → List (List Char)
  | [] => [[]]
  | c :: rest =>
    if c = '/' then [] :: split rest
    else
      match split rest with
      | [] => [[c]]
      | part :: parts => (c :: part) :: parts

/-- Does a part count? -/
def isPart (part : String) : Bool := part ≠ "" && part ≠ "."

/-- The parts of a path that count. -/
def parts (path : String) : List String :=
  ((split path.toList).map String.ofList).filter isPart

/-- Does the path end in a way that only a directory can be meant by? -/
def isFolderLike (path : String) : Bool :=
  match (split path.toList).getLast? with
  | some [] | some ['.'] => true
  | _ => false

/-- The name of the file at the end of a path. -/
def fileName (path : String) : String :=
  match (parts path).getLast? with
  | none | some ".." => ""
  | some part => part

/-- Drops slashes and single dots at the end of a path that is given backwards. -/
def trimBack : List Char → List Char
  | '/' :: c :: rest => trimBack (c :: rest)
  | '.' :: '/' :: rest => trimBack ('/' :: rest)
  | cs => cs

/-- The directory that holds the end of a path. -/
def parent (path : String) : String :=
  String.ofList (trimBack ((trimBack path.toList.reverse).dropWhile (· ≠ '/'))).reverse

end Path

end LogicBoard
