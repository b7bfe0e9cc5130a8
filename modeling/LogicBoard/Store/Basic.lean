/-
  LogicBoard.Store.Basic
  ────────────────────────────────
  **KEEPING CHIP TYPES.**

  A store keeps one record per custom chip type.  Whatever a store is, it
  answers five requests, each of which may fail and may change the store.
-/
import LogicBoard.Json.Reader
import LogicBoard.Record.Decode
import LogicBoard.Record.Encode
import LogicBoard.Store.Disk

namespace LogicBoard

universe u

/-! ## §1. Records. -/

/-- Why a request to a store failed. -/
inductive StoreError where
  /-- The file or directory at the path could not be read or written. -/
  | disk (path : String) (reason : DiskError)
  /-- The record at the path is not the record of a chip type. -/
  | record (path : String)
deriving DecidableEq, Inhabited

namespace StoreError

/-- The path that the failure is about. -/
def path : StoreError → String
  | disk p _ | record p => p

/-- The message of a failure. -/
def message : StoreError → String
  | disk p reason => "type store I/O error at " ++ p ++ ": " ++ reason.text
  | record p => "failed to parse stored type " ++ p ++ ": invalid record"

end StoreError

/-- The record of a chip type. -/
def ChipType.recordText (t : ChipType) : String := (Record.ofChipType t).pretty

/-- Reads the record at a path. -/
def ChipType.ofRecordText (path s : String) : Except StoreError ChipType :=
  match (Json.parse? s).bind Record.chipType? with
  | some t => .ok t
  | none => .error (.record path)

/-! ## §2. Stores. -/

/-- The requests that a store of chip types answers. -/
class TypeStore (σ : Type u) where
  /-- All types that are kept. -/
  loadAll : σ → Except StoreError (List (Name × ChipType)) × σ
  /-- One type, if it is kept. -/
  load : σ → Name → Except StoreError (Option ChipType) × σ
  /-- Keeps a type in place of what was kept under its name. -/
  save : σ → Name → ChipType → Except StoreError Unit × σ
  /-- Keeps a type no longer. -/
  remove : σ → Name → Except StoreError Unit × σ
  /-- The names under which someone else has changed something, in rising order. -/
  changes : σ → Except StoreError (List Name) × σ

end LogicBoard
