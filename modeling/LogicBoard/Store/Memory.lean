/-
  LogicBoard.Store.Memory
  ────────────────────────────────
  **A STORE IN MEMORY.**

  Records are kept as texts.  Nobody else can change them.
-/
import LogicBoard.Store.Basic

namespace LogicBoard

/-- Records by the names of their types. -/
structure MemoryStore where
  records : Table Name String
deriving DecidableEq

namespace MemoryStore

/-- The store that keeps nothing. -/
def empty : MemoryStore := ⟨.empty⟩

/-- All types. -/
def loadAll (s : MemoryStore) : Except StoreError (List (Name × ChipType)) :=
  s.records.entries.mapM fun e => do return (e.1, ← ChipType.ofRecordText e.1.text e.2)

/-- One type. -/
def load (s : MemoryStore) (name : Name) : Except StoreError (Option ChipType) :=
  match s.records.find? name with
  | none => .ok none
  | some text => (ChipType.ofRecordText name.text text).map some

/-- Keeps a type. -/
def save (s : MemoryStore) (name : Name) (t : ChipType) : MemoryStore :=
  ⟨s.records.insert name t.recordText⟩

/-- Keeps a type no longer. -/
def remove (s : MemoryStore) (name : Name) : MemoryStore := ⟨s.records.erase name⟩

instance : TypeStore MemoryStore where
  loadAll s := (s.loadAll, s)
  load s name := (s.load name, s)
  save s name t := (.ok (), s.save name t)
  remove s name := (.ok (), s.remove name)
  changes s := (.ok [], s)

end MemoryStore

end LogicBoard
