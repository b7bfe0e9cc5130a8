/-
  LogicBoard.Proofs.Table
  ────────────────────────────────
  **ENTRIES, KEYS AND LOOK-UPS OF TABLES.**

  A table can be read through its entries or through look-ups; the two views
  agree.  Keys stand in rising order, so each is listed once.

  Main statements: `find?_eq_some_iff`, `mem_keys_iff`, `find?_ofList`,
  `find?_overlay`, `mem_sortedNames`.
-/
import Mathlib.Data.List.Nodup
import LogicBoard.Design.Name

set_option linter.unusedSectionVars false

namespace LogicBoard

namespace Table

universe u v

variable {κ : Type u} [LE κ] [LT κ] [Std.IsLinearOrder κ] [Std.LawfulOrderLT κ]
variable [DecidableLT κ] [DecidableEq κ] {α : Type v}

/-! ## §1. Entries and look-ups. -/

theorem lookIn_eq_some_iff {k : κ} {a : α} {l : List (κ × α)}
    (h : l.Pairwise fun a b => a.1 < b.1) : lookIn k l = some a ↔ (k, a) ∈ l := by
  induction l with
  | nil => simp [lookIn]
  | cons d rest ih =>
    obtain ⟨hd, hrest⟩ := List.pairwise_cons.1 h
    unfold lookIn
    split
    · rename_i hk
      subst hk
      constructor
      · intro heq
        obtain rfl : d.2 = a := by simpa using heq
        exact List.mem_cons_self
      · intro hmem
        rcases List.mem_cons.1 hmem with heq | hmem
        · exact congrArg some (congrArg Prod.snd heq).symm
        · -- Keys rise, so the first key does not stand further back as well.
          exact absurd (hd _ hmem) Std.lt_irrefl
    · rename_i hk
      rw [ih hrest]
      constructor
      · exact List.mem_cons_of_mem _
      · intro hmem
        rcases List.mem_cons.1 hmem with rfl | hmem
        · exact absurd rfl hk
        · exact hmem

/-- A look-up finds exactly the entries. -/
theorem find?_eq_some_iff {t : Table κ α} {k : κ} {a : α} :
    t.find? k = some a ↔ (k, a) ∈ t.entries := lookIn_eq_some_iff t.rising

theorem contains_iff {t : Table κ α} {k : κ} : t.contains k = true ↔ ∃ a, t.find? k = some a := by
  unfold contains
  exact Option.isSome_iff_exists

theorem mem_keys_iff {t : Table κ α} {k : κ} : k ∈ t.keys ↔ ∃ a, t.find? k = some a := by
  unfold keys
  rw [List.mem_map]
  constructor
  · rintro ⟨⟨k, a⟩, h, rfl⟩
    exact ⟨a, find?_eq_some_iff.2 h⟩
  · rintro ⟨a, h⟩
    exact ⟨(k, a), find?_eq_some_iff.1 h, rfl⟩

theorem mem_values_iff {t : Table κ α} {a : α} : a ∈ t.values ↔ ∃ k, t.find? k = some a := by
  unfold values
  rw [List.mem_map]
  constructor
  · rintro ⟨⟨k, a⟩, h, rfl⟩
    exact ⟨k, find?_eq_some_iff.2 h⟩
  · rintro ⟨k, h⟩
    exact ⟨(k, a), find?_eq_some_iff.1 h, rfl⟩

/-! ## §2. Keys. -/

theorem keys_rising (t : Table κ α) : t.keys.Pairwise (· < ·) := by
  unfold keys
  rw [List.pairwise_map]
  exact t.rising

theorem keys_nodup (t : Table κ α) : t.keys.Nodup :=
  t.keys_rising.imp fun h e => absurd (e ▸ h) Std.lt_irrefl

theorem mem_keys_insert {t : Table κ α} {k k' : κ} {a : α} :
    k' ∈ (t.insert k a).keys ↔ k' = k ∨ k' ∈ t.keys := by
  rw [mem_keys_iff, mem_keys_iff]
  simp only [find?_insert]
  by_cases h : k = k'
  · simp [h]
  · simp [h, Ne.symm h]

theorem mem_keys_ofList {l : List (κ × α)} {k : κ} : k ∈ (ofList l).keys ↔ k ∈ l.map (·.1) := by
  -- The table that is built up holds the keys so far, whatever it began with.
  have hfold : ∀ (l : List (κ × α)) (t : Table κ α),
      k ∈ (l.foldl (fun t e => t.insert e.1 e.2) t).keys ↔ k ∈ l.map (·.1) ∨ k ∈ t.keys := by
    intro l
    induction l with
    | nil => intro t; simp
    | cons e rest ih =>
      intro t
      rw [List.foldl_cons, ih, mem_keys_insert, List.map_cons, List.mem_cons]
      tauto
  unfold ofList
  rw [hfold]
  simp [keys, empty]

/-! ## §3. Tables of lists. -/

/-- Entries that are put in one after the other: of several with one key the last one counts, and
other keys keep what they have. -/
theorem find?_foldl_insert (l : List (κ × α)) (t : Table κ α) (k : κ) :
    (l.foldl (fun t e => t.insert e.1 e.2) t).find? k
      = ((l.reverse.find? (·.1 = k)).map (·.2)).or (t.find? k) := by
  induction l generalizing t with
  | nil => rfl
  | cons e rest ih =>
    rw [List.foldl_cons, ih, find?_insert, List.reverse_cons, List.find?_append]
    cases hrest : rest.reverse.find? (·.1 = k) with
    | some d => rfl
    | none => by_cases hk : e.1 = k <;> simp [hk]

/-- Of several entries with one key the last one counts. -/
theorem find?_ofList (l : List (κ × α)) (k : κ) :
    (ofList l).find? k = (l.reverse.find? (·.1 = k)).map (·.2) := by
  unfold ofList
  rw [find?_foldl_insert, find?_empty, Option.or_none]

theorem mem_of_mem_ofList {l : List (κ × α)} {e : κ × α} (h : e ∈ (ofList l).entries) : e ∈ l := by
  have hfind : (ofList l).find? e.1 = some e.2 := find?_eq_some_iff.2 h
  rw [find?_ofList, Option.map_eq_some_iff] at hfind
  obtain ⟨d, hd, hvalue⟩ := hfind
  have hkey : d.1 = e.1 := by simpa using List.find?_some hd
  obtain rfl : d = e := Prod.ext hkey hvalue
  exact List.mem_reverse.1 (List.mem_of_find?_eq_some hd)

/-- If keys do not repeat, the entries are those of the list. -/
theorem find?_ofList_eq_some_iff {l : List (κ × α)} (h : (l.map (·.1)).Nodup) {k : κ} {a : α} :
    (ofList l).find? k = some a ↔ (k, a) ∈ l := by
  rw [find?_ofList, Option.map_eq_some_iff]
  constructor
  · rintro ⟨e, he, rfl⟩
    have hkey : e.1 = k := by simpa using List.find?_some he
    have hmem : e ∈ l := List.mem_reverse.1 (List.mem_of_find?_eq_some he)
    exact hkey ▸ hmem
  · intro hmem
    have hsome : (l.reverse.find? (·.1 = k)).isSome = true :=
      List.find?_isSome.2 ⟨(k, a), List.mem_reverse.2 hmem, by simp⟩
    obtain ⟨e, he⟩ := Option.isSome_iff_exists.1 hsome
    have hkey : e.1 = k := by simpa using List.find?_some he
    have hmem' : e ∈ l := List.mem_reverse.1 (List.mem_of_find?_eq_some he)
    have hsame : e = (k, a) := List.inj_on_of_nodup_map h hmem' hmem hkey
    exact ⟨e, he, congrArg Prod.snd hsame⟩

/-- A table is made of its entries. -/
theorem ofList_entries (t : Table κ α) : ofList t.entries = t := by
  refine ext_find? fun k => Option.ext fun a => ?_
  rw [find?_ofList_eq_some_iff t.keys_nodup, find?_eq_some_iff]

/-- Of two entries with one key the one that is laid over the other counts. -/
theorem find?_overlay (below above : Table κ α) (k : κ) :
    (below.overlay above).find? k = (above.find? k).or (below.find? k) := by
  unfold overlay
  rw [find?_foldl_insert, ← find?_ofList, ofList_entries]

/-- A look-up after entries were dropped. -/
theorem find?_filter (t : Table κ α) (p : κ → α → Bool) (k : κ) :
    (t.filter p).find? k = (t.find? k).filter (p k) := by
  refine Option.ext fun a => ?_
  rw [find?_eq_some_iff, Option.filter_eq_some_iff, find?_eq_some_iff]
  exact List.mem_filter

/-- A key stands in one entry only. -/
theorem filter_entries {t : Table κ α} {k : κ} {a : α} (h : t.find? k = some a) :
    t.entries.filter (·.1 = k) = [(k, a)] := by
  have hone : t.filter (fun k' _ => k' = k) = empty.insert k a := by
    refine ext_find? fun k' => ?_
    rw [find?_filter, find?_insert, find?_empty]
    by_cases hk : k = k'
    · rw [if_pos hk, ← hk, h]
      simp
    · rw [if_neg hk]
      simp [Ne.symm hk]
  exact congrArg entries hone

/-- The table of the values that a function has on a list. -/
theorem find?_ofList_map (l : List κ) (f : κ → α) (k : κ) :
    (ofList (l.map fun k => (k, f k))).find? k = if k ∈ l then some (f k) else none := by
  rw [find?_ofList, ← List.map_reverse, List.find?_map, Option.map_map]
  by_cases hk : k ∈ l
  · obtain ⟨d, hd⟩ : ∃ d, l.reverse.find? ((fun e : κ × α => decide (e.1 = k)) ∘
        fun k => (k, f k)) = some d :=
      Option.isSome_iff_exists.1 (List.find?_isSome.2 ⟨k, List.mem_reverse.2 hk, by simp⟩)
    obtain rfl : d = k := by simpa using List.find?_some hd
    rw [hd, if_pos hk]
    rfl
  · rw [if_neg hk, Option.map_eq_none_iff, List.find?_eq_none]
    intro d hd heq
    obtain rfl : d = k := by simpa using heq
    exact hk (List.mem_reverse.1 hd)

/-- The entries of such a table, in the order that the keys alone would have. -/
theorem entries_ofList_map (l : List κ) (f : κ → α) :
    (ofList (l.map fun k => (k, f k))).entries
      = (ofList (l.map fun k => (k, ()))).keys.map fun k => (k, f k) := by
  have hvalues : ofList (l.map fun k => (k, f k))
      = ⟨(ofList (l.map fun k => (k, ()))).keys.map fun k => (k, f k), by
          rw [List.pairwise_map]
          exact keys_rising _⟩ := by
    refine ext_find? fun k => Option.ext fun a => ?_
    rw [find?_ofList_map, find?_eq_some_iff, List.mem_map]
    simp only [mem_keys_ofList, List.map_map, Prod.mk.injEq]
    constructor
    · intro h
      split at h
      · rename_i hk
        exact ⟨k, by simpa using hk, rfl, Option.some.inj h⟩
      · exact absurd h (by simp)
    · rintro ⟨d, hd, rfl, rfl⟩
      rw [if_pos (by simpa using hd)]
  exact congrArg entries hvalues

/-! ## §4. What holds of all entries. -/

theorem forall_insert {P : κ → α → Prop} {t : Table κ α} (h : ∀ k a, t.find? k = some a → P k a)
    {k : κ} {a : α} (hk : P k a) : ∀ k' a', (t.insert k a).find? k' = some a' → P k' a' := by
  intro k' a' hfind
  rw [find?_insert] at hfind
  split at hfind
  · rename_i heq
    exact heq ▸ Option.some.inj hfind ▸ hk
  · exact h k' a' hfind

theorem forall_erase {P : κ → α → Prop} {t : Table κ α} (h : ∀ k a, t.find? k = some a → P k a)
    (k : κ) : ∀ k' a', (t.erase k).find? k' = some a' → P k' a' := by
  intro k' a' hfind
  rw [find?_erase] at hfind
  split at hfind
  · exact absurd hfind (by simp)
  · exact h k' a' hfind

/-! ## §5. Images of values. -/

variable {β : Type v}

theorem mapValues_insert (t : Table κ α) (k : κ) (a : α) (f : α → β) :
    (t.insert k a).mapValues f = (t.mapValues f).insert k (f a) := by
  refine ext_find? fun k' => ?_
  rw [find?_mapValues, find?_insert, find?_insert, find?_mapValues]
  split <;> rfl

theorem mapValues_erase (t : Table κ α) (k : κ) (f : α → β) :
    (t.erase k).mapValues f = (t.mapValues f).erase k := by
  refine ext_find? fun k' => ?_
  rw [find?_mapValues, find?_erase, find?_erase, find?_mapValues]
  split <;> rfl

/-- A table whose look-ups come from those of another one has its entries from there as well. -/
theorem entries_eq_map {t : Table κ β} {u : Table κ α} {f : κ → α → β}
    (h : ∀ k, t.find? k = (u.find? k).map (f k)) :
    t.entries = u.entries.map fun e => (e.1, f e.1 e.2) := by
  have himage : t = ⟨u.entries.map fun e => (e.1, f e.1 e.2), by
      rw [List.pairwise_map]
      exact u.rising⟩ := by
    refine ext_find? fun k => Option.ext fun b => ?_
    rw [h, find?_eq_some_iff, Option.map_eq_some_iff, List.mem_map]
    constructor
    · rintro ⟨a, ha, rfl⟩
      exact ⟨(k, a), find?_eq_some_iff.1 ha, rfl⟩
    · rintro ⟨⟨k', a⟩, he, heq⟩
      obtain ⟨rfl, rfl⟩ := Prod.mk.inj heq
      exact ⟨a, find?_eq_some_iff.2 he, rfl⟩
  exact congrArg entries himage

theorem keys_mapValues (t : Table κ α) (f : α → β) : (t.mapValues f).keys = t.keys := by
  unfold keys mapValues
  rw [List.map_map]
  rfl

/-- Values that stay as they are make the same table. -/
theorem mapValues_eq_self {t : Table κ α} {f : α → α} (h : ∀ e ∈ t.entries, f e.2 = e.2) :
    t.mapValues f = t := by
  refine ext_find? fun k => ?_
  rw [find?_mapValues]
  cases hk : t.find? k with
  | none => rfl
  | some a => exact congrArg some (h (k, a) (find?_eq_some_iff.1 hk))

/-! ## §6. Setting and forgetting. -/

/-- Sets the value at a key, or forgets what there is. -/
def setTo (t : Table κ α) (k : κ) : Option α → Table κ α
  | some a => t.insert k a
  | none => t.erase k

theorem find?_setTo (t : Table κ α) (k k' : κ) (o : Option α) :
    (t.setTo k o).find? k' = if k = k' then o else t.find? k' := by
  cases o with
  | some a => exact find?_insert t k k' a
  | none => exact find?_erase t k k'

/-- Setting what is set already changes nothing. -/
theorem setTo_eq_self {t : Table κ α} {k : κ} {o : Option α} (h : t.find? k = o) :
    t.setTo k o = t := by
  refine ext_find? fun k' => ?_
  rw [find?_setTo]
  split
  · rename_i hk
    rw [← h, hk]
  · rfl

/-- Entries are set one after the other, so of several with one key the last one counts. -/
theorem find?_foldl_setTo (l : List (κ × Option α)) (t : Table κ α) (k : κ) :
    (l.foldl (fun t e => t.setTo e.1 e.2) t).find? k
      = ((ofList l).find? k).getD (t.find? k) := by
  rw [find?_ofList]
  induction l generalizing t with
  | nil => rfl
  | cons e rest ih =>
    rw [List.foldl_cons, ih, find?_setTo, List.reverse_cons, List.find?_append]
    cases hrest : rest.reverse.find? (·.1 = k) with
    | some d => rfl
    | none => by_cases hk : e.1 = k <;> simp [hk]

end Table

/-! ## §7. Sorted names. -/

theorem mem_sortedNames {names : List Name} {n : Name} : n ∈ sortedNames names ↔ n ∈ names := by
  unfold sortedNames
  rw [Table.mem_keys_ofList, List.map_map]
  simp

/-- Lists of the same names are sorted alike. -/
theorem sortedNames_congr {l m : List Name} (h : ∀ n, n ∈ l ↔ n ∈ m) :
    sortedNames l = sortedNames m := by
  unfold sortedNames
  refine congrArg Table.keys (Table.ext_find? fun k => ?_)
  rw [Table.find?_ofList_map, Table.find?_ofList_map]
  simp only [h]

theorem sortedNames_rising (names : List Name) : (sortedNames names).Pairwise (· < ·) :=
  Table.keys_rising _

end LogicBoard
