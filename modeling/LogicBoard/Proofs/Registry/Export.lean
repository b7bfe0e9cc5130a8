/-
  LogicBoard.Proofs.Registry.Export
  ────────────────────────────────
  **WHAT A REGISTRY EXPORTS CAN BE COMPILED.**

  A registry hands its custom types to the compiler as the text of a source.
  Whatever is done with the registry and with its store, and whether it
  succeeds or fails, all custom types are in canonical form, because they
  enter the registry in no other way.  So the text passes all checks on the
  way into the compiler.

  Main statements:
    • `AllCanonical.apply` — operations leave canonical types, also when they
      fail,
    • `Reachable.allCanonical` — so all states of a registry have them,
    • `ofText_source` — the exported text is read as the source.
-/
import LogicBoard.Compile.Compiler
import LogicBoard.Proofs.Record.Source
import LogicBoard.Proofs.Registry.Memory

namespace LogicBoard.Registry

universe u

variable {σ : Type u} [TypeStore σ] {r : Registry σ}

/-! ## §1. Canonical types. -/

/-- All types of a table are in canonical form. -/
def AllCanonical (custom : TypeTable) : Prop :=
  ∀ name t, custom.find? name = some t → t.IsCanonical

theorem AllCanonical.insert {custom : TypeTable} (h : AllCanonical custom) (name : Name)
    (t : ChipType) : AllCanonical (custom.insert name t.canonical) :=
  Table.forall_insert h t.isCanonical_canonical

theorem AllCanonical.erase {custom : TypeTable} (h : AllCanonical custom) (name : Name) :
    AllCanonical (custom.erase name) :=
  Table.forall_erase h name

/-! ## §2. Operations. -/

/-- A definition that is put into the registry is made canonical; if it cannot be stored, it is not
put there. -/
theorem AllCanonical.put (h : AllCanonical r.custom) (name : Name) (t : ChipType) :
    AllCanonical (r.put name t).2.custom := by
  unfold Registry.put
  dsimp only
  -- The definition is saved first, and the table is left as it is if this fails.
  cases TypeStore.save r.store name t.canonical with
  | mk result store =>
    cases result with
    | error e => exact h
    | ok u => exact h.insert name t

theorem AllCanonical.change {α : Type} (h : AllCanonical r.custom) (name : Name) (refusal : α)
    (f : ChipType → ChipType × α) : AllCanonical (done (r.change name refusal f)).2.custom := by
  rw [done_change]
  split
  · exact h
  · exact h.put name _

theorem AllCanonical.removeType (h : AllCanonical r.custom) (name : Name) :
    AllCanonical (r.removeType name).2.custom := by
  unfold Registry.removeType
  split
  · exact h.erase name
  · exact h

theorem AllCanonical.removeTypes (h : AllCanonical r.custom) (names : List Name) :
    AllCanonical (r.removeTypes names).2.custom := by
  induction names generalizing r with
  | nil => exact h
  | cons name rest ih =>
    have hremove := h.removeType name
    unfold Registry.removeTypes
    cases hresult : r.removeType name with
    | mk result after =>
      rw [hresult] at hremove
      cases result with
      | error e => exact hremove
      | ok removed => exact ih hremove

theorem AllCanonical.syncType (h : AllCanonical r.custom) (name : Name) :
    AllCanonical (r.syncType name).2.custom := by
  unfold Registry.syncType
  split
  · exact h
  · cases TypeStore.load r.store name with
    | mk result store =>
      rcases result with e | (_ | t)
      · exact h
      · exact h.erase name
      · exact h.insert name t

theorem AllCanonical.syncTypes (h : AllCanonical r.custom) (names : List Name) :
    AllCanonical (r.syncTypes names).2.custom := by
  induction names generalizing r with
  | nil => exact h
  | cons name rest ih =>
    have hsync := h.syncType name
    unfold Registry.syncTypes
    cases hresult : r.syncType name with
    | mk result after =>
      rw [hresult] at hsync
      cases result with
      | error e => exact hsync
      | ok u => exact ih hsync

theorem AllCanonical.sync (h : AllCanonical r.custom) : AllCanonical r.sync.2.custom := by
  unfold Registry.sync
  cases TypeStore.changes r.store with
  | mk result store =>
    cases result with
    | error e => exact h
    | ok names =>
      have hafter : AllCanonical ({ r with store } : Registry σ).custom := h
      exact hafter.syncTypes names

/-- Operations leave canonical types, also when they fail. -/
theorem AllCanonical.apply (h : AllCanonical r.custom) (op : Operation) :
    AllCanonical (r.apply op).2.custom := by
  cases op with
  | newType name => exact h.change name _ _
  | setSize name size => exact h.change name _ _
  | setPort name position port output => exact h.change name _ _
  | addConstant name constant => exact h.change name _ _
  | removeConstant name constant =>
    unfold Registry.apply removeConstant
    exact h.change name _ _
  | setContent name content => exact h.change name _ _
  | setBaseType name => exact h
  | removeType name => exact h.removeType name
  | reset => exact h.removeTypes r.custom.keys
  | sync => exact h.sync

/-! ## §3. States. -/

/-- The states that a registry can be in: it is opened, operations are carried out or fail, and
others change what is in its store. -/
inductive Reachable : Registry σ → Prop where
  | opened {settings : Settings} {store : σ} {r : Registry σ}
      (opened : load settings store = .ok r) : Reachable r
  | applied {r : Registry σ} (reachable : Reachable r) (op : Operation) : Reachable (r.apply op).2
  | shared {r : Registry σ} (reachable : Reachable r) (store : σ) : Reachable { r with store }

theorem allCanonical_of_load {settings : Settings} {store : σ}
    (h : load settings store = .ok r) : AllCanonical r.custom := by
  unfold load at h
  cases hresult : TypeStore.loadAll store with
  | mk result store =>
    rw [hresult] at h
    cases result with
    | error e => exact absurd h (by simp)
    | ok types =>
      obtain rfl := Except.ok.inj h
      intro name t ht
      obtain ⟨e, -, heq⟩ := List.mem_map.1 (Table.mem_of_mem_ofList (Table.find?_eq_some_iff.1 ht))
      obtain ⟨-, rfl⟩ := Prod.mk.inj heq
      exact e.2.isCanonical_canonical

/-- In every state all custom types are canonical. -/
theorem Reachable.allCanonical (h : r.Reachable) : AllCanonical r.custom := by
  induction h with
  | opened hload => exact allCanonical_of_load hload
  | applied _ op ih => exact ih.apply op
  | shared _ store ih => exact ih

/-! ## §4. Exported sources. -/

/-- The names of the custom types are folded, and nothing in their contents is lost in a record:
coordinates are numbers of 32 bits, and constants are whole numbers or texts. -/
def IsExportable (r : Registry σ) : Prop :=
  ∀ name t, r.custom.find? name = some t → name.IsFolded ∧ t.content.IsRecordable

/-- The source of a root type, whether it is defined or not. -/
theorem isRecordable_source (hr : r.Reachable) (h : r.IsExportable) {root : Name}
    (hroot : root.IsFolded) : (r.source root).IsRecordable where
  chip := ⟨hroot, hroot, ⟨show IsInt32 1 by decide, show IsInt32 1 by decide⟩,
    fun _ he => absurd he List.not_mem_nil⟩
  types name t ht := ⟨(h name t ht).1, hr.allCanonical name t ht, (h name t ht).2⟩

/-- Whatever a registry exports is accepted: the text is read as the source that it was written
for, so that compiling the text is compiling the source. -/
theorem ofText_source [Template.Engine] (hr : r.Reachable) (h : r.IsExportable) {root : Name}
    (hroot : root.IsFolded) : Source.ofText (r.source root).text = .ok (r.source root) ∧
      ∀ c : Compiler, c.compileText (r.source root).text = c.compile (r.source root) := by
  have hread := Source.ofText_text (isRecordable_source hr h hroot)
  refine ⟨hread, fun c => ?_⟩
  unfold Compiler.compileText
  rw [hread]

/-- A registry that has just been opened on an empty store. -/
def freshRegistry : Registry MemoryStore :=
  ⟨.empty, .ofText ({} : Settings).editor.baseType, ({} : Settings).editor.baseMaxSize,
    ({} : Settings).route, .empty⟩

/-- A registry with one type, which was given a content and a constant slot. -/
def gateRegistry : Registry MemoryStore :=
  ((freshRegistry.apply (.setContent ⟨"cell"⟩ gateContent)).2.apply
    (.addConstant ⟨"cell"⟩ "mode")).2

theorem reachable_gateRegistry : gateRegistry.Reachable :=
  .applied (.applied (.opened (show load {} .empty = .ok freshRegistry from rfl)) _) _

theorem isExportable_gateRegistry : gateRegistry.IsExportable := by
  -- Only chips and wires are compared; the rest of the type does not matter here.
  have hentries : gateRegistry.custom.entries.map (fun e =>
      (e.1, e.2.content.chips.values, e.2.content.wires))
        = [(⟨"cell"⟩, gateContent.chips.values, gateContent.wires)] := by decide +kernel
  intro name t ht
  have hmem := List.mem_map_of_mem (f := fun e : Name × ChipType =>
    (e.1, e.2.content.chips.values, e.2.content.wires)) (Table.find?_eq_some_iff.1 ht)
  rw [hentries, List.mem_singleton] at hmem
  obtain ⟨rfl, hparts⟩ := Prod.mk.inj hmem
  obtain ⟨hchips, hwires⟩ := Prod.mk.inj hparts
  exact ⟨⟨"cell", by decide +kernel⟩, hchips ▸ isRecordable_gateContent.chips,
    hwires ▸ isRecordable_gateContent.wires⟩

/-- It can be exported with its type as the root, and with a root type that it does not know. -/
theorem ofText_gateRegistry : gateRegistry.custom.keys = [⟨"cell"⟩] ∧
    Source.ofText (gateRegistry.source ⟨"cell"⟩).text = .ok (gateRegistry.source ⟨"cell"⟩) ∧
    Source.ofText (gateRegistry.source ⟨"void"⟩).text = .ok (gateRegistry.source ⟨"void"⟩) :=
  ⟨by decide +kernel,
    (ofText_source reachable_gateRegistry isExportable_gateRegistry ⟨"cell", by decide +kernel⟩).1,
    (ofText_source reachable_gateRegistry isExportable_gateRegistry ⟨"void", by decide +kernel⟩).1⟩

end LogicBoard.Registry
