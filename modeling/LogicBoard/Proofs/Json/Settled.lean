/-
  LogicBoard.Proofs.Json.Settled
  ────────────────────────────────
  **SETTLED DOCUMENTS.**

  Settling a document sorts the members of every object by their keys, and
  fails at what is unreadable or nested too deeply.  Where neither occurs,
  and no object has a key twice, every member is found under its key as
  before, settled itself.

  Main statements:
    • `settleIn?_eq` — a document that fits is settled,
    • `lookup_settled` — its members are found under their keys,
    • `settled_of_rising` — sorted objects keep their order.
-/
import LogicBoard.Json.Value
import LogicBoard.Proofs.Fallible
import LogicBoard.Proofs.Table

namespace LogicBoard

/-! ## §1. Looking members up. -/

namespace Table

universe v

variable {α : Type v}

/-- If keys do not repeat, the first entry of a key is the one that counts in the table. -/
theorem lookup_eq_find?_ofList {l : List (String × α)} (h : (l.map (·.1)).Nodup) (k : String) :
    l.lookup k = (ofList l).find? k := by
  refine Option.ext fun a => ?_
  rw [find?_ofList_eq_some_iff h]
  induction l with
  | nil => simp
  | cons e rest ih =>
    obtain ⟨hnew, hrest⟩ := List.nodup_cons.1 h
    rw [List.lookup_cons, List.mem_cons]
    by_cases hk : k = e.1
    -- The first entry has the key, and `hnew` says that no later one does.
    · subst hk
      simp only [beq_self_eq_true]
      constructor
      · intro heq
        exact Or.inl (Prod.ext rfl (Option.some.inj heq).symm)
      · rintro (heq | hmem)
        · exact congrArg (fun d => some d.2) heq.symm
        · exact absurd (List.mem_map_of_mem hmem) hnew
    · rw [beq_false_of_ne hk, ← ih hrest]
      constructor
      · exact Or.inr
      · rintro (heq | hmem)
        · exact absurd (congrArg Prod.fst heq) hk
        · exact hmem

/-- A list in rising order of keys holds the entries of its table. -/
theorem entries_ofList_of_rising {l : List (String × α)} (h : l.Pairwise fun a b => a.1 < b.1) :
    (ofList l).entries = l :=
  congrArg entries (ofList_entries ⟨l, h⟩)

/-- A look-up among the entries of a table. -/
theorem lookup_entries_ofList {l : List (String × α)} (h : (l.map (·.1)).Nodup) (k : String) :
    (ofList l).entries.lookup k = l.lookup k := by
  rw [lookup_eq_find?_ofList (ofList l).keys_nodup, ofList_entries, ← lookup_eq_find?_ofList h]

end Table

namespace Json

/-! ## §2. Settling. -/

/-- At most `room` arrays and objects stand inside each other, and nothing is unreadable. -/
inductive Fits : Nat → Json → Prop where
  | null {room : Nat} : Fits room .null
  | bool {room : Nat} (b : Bool) : Fits room (.bool b)
  | number {room : Nat} (n : Number) : Fits room (.number n)
  | string {room : Nat} (s : String) : Fits room (.string s)
  | array {room : Nat} {items : List Json} (fits : ∀ j ∈ items, Fits room j) :
      Fits (room + 1) (.array items)
  | object {room : Nat} {entries : List (String × Json)} (fits : ∀ e ∈ entries, Fits room e.2) :
      Fits (room + 1) (.object entries)

mutual

/-- The document with the members of all objects in the order of their keys. -/
def settled : Json → Json
  | .array items => .array (settledItems items)
  | .object entries => .object (Table.ofList (settledMembers entries)).entries
  | j => j

/-- The items, settled. -/
def settledItems : List Json → List Json
  | [] => []
  | item :: rest => item.settled :: settledItems rest

/-- The members with settled values, in the order as it was. -/
def settledMembers : List (String × Json) → List (String × Json)
  | [] => []
  | (key, value) :: rest => (key, value.settled) :: settledMembers rest

end

theorem settled_array (items : List Json) :
    settled (.array items) = .array (items.map settled) := by
  have hitems : settledItems items = items.map settled := by
    induction items with
    | nil => rfl
    | cons item rest ih =>
      unfold settledItems
      rw [ih]
      rfl
  conv => lhs; unfold settled
  rw [hitems]

/-- The members of an object after settling. -/
def settledEntries (entries : List (String × Json)) : List (String × Json) :=
  (Table.ofList (entries.map fun e => (e.1, e.2.settled))).entries

theorem settled_object (entries : List (String × Json)) :
    settled (.object entries) = .object (settledEntries entries) := by
  have hmembers : settledMembers entries = entries.map fun e => (e.1, e.2.settled) := by
    induction entries with
    | nil => rfl
    | cons e rest ih =>
      unfold settledMembers
      rw [ih]
      rfl
  unfold settledEntries
  conv => lhs; unfold settled
  rw [hmembers]

/-- A document that fits is settled. -/
theorem settleIn?_eq {room : Nat} {j : Json} (h : Fits room j) :
    settleIn? room j = some j.settled := by
  induction h with
  | null | bool b | number n | string s =>
    unfold settleIn?
    rfl
  | @array room items _ ih =>
    unfold settleIn?
    dsimp only
    rw [Fallible.mapM_eq_map ih, settled_array]
    rfl
  | @object room entries _ ih =>
    -- Keys and values are taken apart, the values are settled, and both are zipped again.
    have hvalues : (entries.map (·.2)).mapM (settleIn? room)
        = pure ((entries.map (·.2)).map settled) :=
      Fallible.mapM_eq_map (List.forall_mem_map.2 ih)
    have hzip : (entries.map (·.1)).zip ((entries.map (·.2)).map settled)
        = entries.map fun e => (e.1, e.2.settled) := by
      rw [List.map_map, List.zip_map']
      rfl
    unfold settleIn?
    dsimp only
    rw [hvalues, settled_object, settledEntries, ← hzip]
    rfl

/-! ## §3. Members of settled objects. -/

/-- Every member is found under its key. -/
theorem lookup_settled {entries : List (String × Json)} (h : (entries.map (·.1)).Nodup)
    (key : String) :
    (settledEntries entries).lookup key = (entries.lookup key).map settled := by
  have hkeys : ((entries.map fun e => (e.1, e.2.settled)).map (·.1)).Nodup := by
    rw [List.map_map]
    exact h
  unfold settledEntries
  rw [Table.lookup_entries_ofList hkeys]
  -- In the list as it was, settling the values does not change which entry comes first.
  clear h hkeys
  induction entries with
  | nil => rfl
  | cons e rest ih =>
    rw [List.map_cons, List.lookup_cons, List.lookup_cons, ih]
    cases key == e.1 <;> rfl

theorem keys_settled_nodup (entries : List (String × Json)) :
    ((settledEntries entries).map (·.1)).Nodup :=
  Table.keys_nodup _

/-- The members of a settled object are settled members of the object. -/
theorem exists_of_mem_settledEntries {entries : List (String × Json)} {e : String × Json}
    (h : e ∈ settledEntries entries) : ∃ d ∈ entries, (d.1, d.2.settled) = e :=
  List.mem_map.1 (Table.mem_of_mem_ofList h)

/-- Members whose keys rise stay in their order. -/
theorem settled_of_rising {entries : List (String × Json)}
    (h : entries.Pairwise fun a b => a.1 < b.1) :
    settled (.object entries) = .object (entries.map fun e => (e.1, e.2.settled)) := by
  have hrising : (entries.map fun e => (e.1, e.2.settled)).Pairwise fun a b => a.1 < b.1 := by
    rw [List.pairwise_map]
    exact h
  rw [settled_object, settledEntries, Table.entries_ofList_of_rising hrising]

end Json

end LogicBoard
