/-
  LogicBoard.Main
  ────────────────────────────────
  **THE PROGRAM.**

  A command is carried out on a copy of the files that it may need.  What has
  changed on the copy is written back, and what was printed on it is printed.
-/
import LogicBoard.Command.Run

namespace LogicBoard.Program

/-- The path of a place. -/
def pathOf (p : Place) : String := "/" ++ "/".intercalate p

/-- The place that a path means. -/
def placeOf (home : Place) (path : String) : Place :=
  let start := if Path.isAbsolute path then [] else home
  (Path.parts path).foldl (fun p part => if part = ".." then p.dropLast else p ++ [part]) start

/-- Copies what there is at a place. -/
def copyPlace (d : Disk) (p : Place) : IO Disk := do
  let here := (← IO.currentDir) / pathOf p
  if ← here.isDir then return d.put p .folder
  else if ← here.pathExists then return d.put p (.ofBytes (← IO.FS.readBinFile here))
  else return d

/-- Copies what a path leads to and the directories on the way. -/
def copyPath (d : Disk) (path : String) : IO Disk :=
  let p := placeOf d.home path
  (List.range (p.length + 1)).foldlM (fun d n => copyPlace d (p.take n)) d

/-- Copies a directory with its files. -/
def copyFolder (d : Disk) (path : String) : IO Disk := do
  let d ← copyPath d path
  let p := placeOf d.home path
  let here := (← IO.currentDir) / pathOf p
  if ← here.isDir then
    (← here.readDir).foldlM (fun d e => copyPlace d (p ++ [e.fileName])) d
  else return d

/-- Copies what a command line may need.  The first round finds the configuration, the second one
the directory around it, and the third one what the configuration names. -/
def copyNeeded (words : List String) : Nat → Disk → IO Disk
  | 0, d => return d
  | rounds + 1, d => do
    let (files, folders) := neededPaths d words
    copyNeeded words rounds (← folders.foldlM copyFolder (← files.foldlM copyPath d))

/-- Writes back what has changed. -/
def writeBack (before after : Disk) : IO Unit := do
  let base ← IO.currentDir
  for (p, e) in after.entries.entries do
    match e, before.entryAt? p with
    | .folder, none => IO.FS.createDirAll (base / pathOf p)
    | .text s, some (.text t) => if s ≠ t then IO.FS.writeFile (base / pathOf p) s
    | .text s, _ => IO.FS.writeFile (base / pathOf p) s
    | _, _ => pure ()
  for p in before.entries.keys do
    if (after.entryAt? p).isNone then IO.FS.removeFile (base / pathOf p)

/-- Carries out a command line and answers the exit code. -/
def run (words : List String) : IO UInt32 := do
  let home := Path.parts (← IO.currentDir).toString
  let terminal := (← IO.getEnv "TERM").isSome && (← IO.getEnv "NO_COLOR").isNone
  let before ← copyNeeded words 3 (.ofHome home)
  let (code, host) := runArguments terminal before words
  writeBack before host.disk
  IO.print host.out
  IO.eprint host.err
  return UInt32.ofNat code

end LogicBoard.Program

/-- The program. -/
def main (words : List String) : IO UInt32 := LogicBoard.Program.run words
