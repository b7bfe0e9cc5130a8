/-
  LogicBoard.Table
  ────────────────────────────────
  **TABLES SORTED BY KEY.**

  Chips, chip types, constants and scores are all looked up by name and
  listed in name order.  A `Table` is the list of its entries in strictly
  rising order of their keys, so a table is determined by what it holds:
  two tables with the same look-ups are equal (`Table.ext_find?`).

  Main statements: `find?_insert`, `find?_erase`, `find?_mapValues` say what
  the operations do to look-ups.
-/
set_option linter.unusedSectionVars false

namespace LogicBoard

universe u v w

/-! ## §1. Entries and their order. -/

/-- A finite map whose entries stand in strictly rising order of their keys. -/
structure Table (κ : Type u) [LT κ] (α : Type v) where
  entries : List (κ × α)
  rising : entries.Pairwise fun a b => a.1 < b.1

namespace Table

variable {κ : Type u} [LE κ] [LT κ] [Std.IsLinearOrder κ] [Std.LawfulOrderLT κ]
variable [DecidableLT κ] [DecidableEq κ] {α : Type v} {β : Type w}

instance [DecidableEq α] : DecidableEq (Table κ α) := fun s t =>
  if h : s.entries = t.entries then isTrue (by cases s; cases t; simp_all)
  else isFalse fun e => h (e ▸ rfl)

/-! ## §2. Operations on entries. -/

/-- The value at a key in a list of entries. -/
def lookIn (k : κ) : List (κ × α) → Option α
  | [] => none
  | e :: rest => if e.1 = k then some e.2 else lookIn k rest

/-- Puts an entry in its place, over an entry with the same key. -/
def putIn (k : κ) (a : α) : List (κ × α) → List (κ × α)
  | [] => [(k, a)]
  | e :: rest =>
    if k < e.1 then (k, a) :: e :: rest
    else if k = e.1 then (k, a) :: rest
    else e :: putIn k a rest

theorem mem_putIn {k : κ} {a : α} {e : κ × α} {l : List (κ × α)} (h : e ∈ putIn k a l) :
    e = (k, a) ∨ e ∈ l := by
  induction l with
  | nil => simp_all [putIn]
  | cons d rest ih =>
    rw [putIn] at h
    split at h
    · simpa using h
    · split at h
      · rcases List.mem_cons.1 h with h | h
        · exact .inl h
        · exact .inr (List.mem_cons_of_mem _ h)
      · rcases List.mem_cons.1 h with h | h
        · exact .inr (h ▸ List.mem_cons_self)
        · exact (ih h).imp id (List.mem_cons_of_mem _)

theorem lt_of_not_lt_of_ne {a b : κ} (h : ¬ a < b) (hne : a ≠ b) : b < a := by
  rcases Std.lt_trichotomy a b with h' | h' | h'
  · exact absurd h' h
  · exact absurd h' hne
  · exact h'

theorem rising_putIn (k : κ) (a : α) {l : List (κ × α)} (h : l.Pairwise fun a b => a.1 < b.1) :
    (putIn k a l).Pairwise fun a b => a.1 < b.1 := by
  induction l with
  | nil => simp [putIn]
  | cons d rest ih =>
    obtain ⟨hd, hrest⟩ := List.pairwise_cons.1 h
    rw [putIn]
    split
    · rename_i hlt
      refine List.pairwise_cons.2 ⟨fun e he => ?_, h⟩
      rcases List.mem_cons.1 he with rfl | he
      · exact hlt
      · exact Std.lt_trans hlt (hd e he)
    · split
      · rename_i heq
        exact List.pairwise_cons.2 ⟨fun e he => heq ▸ hd e he, hrest⟩
      · rename_i hlt hne
        refine List.pairwise_cons.2 ⟨fun e he => ?_, ih hrest⟩
        rcases mem_putIn he with rfl | he
        · exact lt_of_not_lt_of_ne hlt hne
        · exact hd e he

/-! ## §3. Tables. -/

/-- The table without entries. -/
def empty : Table κ α := ⟨[], .nil⟩

instance : Inhabited (Table κ α) := ⟨empty⟩

/-- The value at a key. -/
def find? (t : Table κ α) (k : κ) : Option α :=
  lookIn k t.entries

/-- Is there an entry at the key? -/
def contains (t : Table κ α) (k : κ) : Bool :=
  (t.find? k).isSome

/-- Sets the value at a key. -/
def insert (t : Table κ α) (k : κ) (a : α) : Table κ α :=
  ⟨putIn k a t.entries, rising_putIn k a t.rising⟩

/-- Forgets the entry at a key. -/
def erase (t : Table κ α) (k : κ) : Table κ α :=
  ⟨t.entries.filter fun e => e.1 ≠ k, t.rising.filter _⟩

/-- The entries whose key and value pass a test. -/
def filter (t : Table κ α) (p : κ → α → Bool) : Table κ α :=
  ⟨t.entries.filter fun e => p e.1 e.2, t.rising.filter _⟩

/-- Replaces every value by its image. -/
def mapValues (t : Table κ α) (f : α → β) : Table κ β :=
  ⟨t.entries.map fun e => (e.1, f e.2), by
    rw [List.pairwise_map]
    exact t.rising⟩

/-- Makes a table of entries; of several with one key the last one counts. -/
def ofList (l : List (κ × α)) : Table κ α :=
  l.foldl (fun t e => t.insert e.1 e.2) empty

/-- The keys, in rising order. -/
def keys (t : Table κ α) : List κ :=
  t.entries.map (·.1)

/-- The values, in the order of their keys. -/
def values (t : Table κ α) : List α :=
  t.entries.map (·.2)

/-- How many entries there are. -/
def size (t : Table κ α) : Nat :=
  t.entries.length

/-- Are there no entries? -/
def isEmpty (t : Table κ α) : Bool :=
  t.entries.isEmpty

/-- Lays one table over another: its entries count where both have one. -/
def overlay (below above : Table κ α) : Table κ α :=
  above.entries.foldl (fun t e => t.insert e.1 e.2) below

/-! ## §4. Look-ups. -/

theorem lookIn_putIn (k k' : κ) (a : α) (l : List (κ × α)) :
    lookIn k' (putIn k a l) = if k = k' then some a else lookIn k' l := by
  induction l with
  | nil => simp [putIn, lookIn]
  | cons d rest ih =>
    rw [putIn]
    split
    · simp [lookIn]
    · split
      · rename_i h
        subst h
        by_cases hk : d.1 = k' <;> simp [lookIn, hk]
      · rename_i hne
        by_cases hd : d.1 = k'
        · subst hd
          simp [lookIn, hne]
        · simp [lookIn, hd, ih]

theorem find?_insert (t : Table κ α) (k k' : κ) (a : α) :
    (t.insert k a).find? k' = if k = k' then some a else t.find? k' :=
  lookIn_putIn k k' a t.entries

theorem lookIn_filter_ne (k k' : κ) (l : List (κ × α)) :
    lookIn k' (l.filter fun e => e.1 ≠ k) = if k = k' then none else lookIn k' l := by
  induction l with
  | nil => simp [lookIn]
  | cons d rest ih =>
    by_cases hd : d.1 = k <;> by_cases hk : k = k' <;> by_cases hd' : d.1 = k' <;>
      simp_all [lookIn]

theorem find?_erase (t : Table κ α) (k k' : κ) :
    (t.erase k).find? k' = if k = k' then none else t.find? k' :=
  lookIn_filter_ne k k' t.entries

theorem find?_mapValues (t : Table κ α) (f : α → β) (k : κ) :
    (t.mapValues f).find? k = (t.find? k).map f := by
  obtain ⟨l, _⟩ := t
  show lookIn k (l.map _) = (lookIn k l).map f
  induction l with
  | nil => rfl
  | cons d rest ih => by_cases hd : d.1 = k <;> simp_all [lookIn, List.pairwise_cons]

theorem find?_empty (k : κ) : (empty : Table κ α).find? k = none := rfl

/-! ## §5. Extensionality. -/

theorem lookIn_eq_none {k : κ} {l : List (κ × α)} (h : ∀ e ∈ l, k < e.1) : lookIn k l = none := by
  induction l with
  | nil => rfl
  | cons d rest ih =>
    have hd : d.1 ≠ k := fun e => Std.lt_irrefl (e ▸ h d List.mem_cons_self)
    simp [lookIn, hd, ih fun e he => h e (List.mem_cons_of_mem _ he)]

theorem eq_of_lookIn_eq {l m : List (κ × α)} (hl : l.Pairwise fun a b => a.1 < b.1)
    (hm : m.Pairwise fun a b => a.1 < b.1) (h : ∀ k, lookIn k l = lookIn k m) : l = m := by
  induction l generalizing m with
  | nil =>
    cases m with
    | nil => rfl
    | cons d rest => simpa [lookIn] using h d.1
  | cons c restL ih =>
    cases m with
    | nil => simpa [lookIn] using h c.1
    | cons d restM =>
      obtain ⟨hc, hrestL⟩ := List.pairwise_cons.1 hl
      obtain ⟨hd, hrestM⟩ := List.pairwise_cons.1 hm
      rcases Std.lt_trichotomy c.1 d.1 with hlt | heq | hlt
      · have : lookIn c.1 (d :: restM) = none := lookIn_eq_none fun e he => by
          rcases List.mem_cons.1 he with rfl | he
          · exact hlt
          · exact Std.lt_trans hlt (hd e he)
        have hc' := h c.1
        rw [this] at hc'
        simp [lookIn] at hc'
      · have hv : c.2 = d.2 := by simpa [lookIn, heq] using h d.1
        have hrest : restL = restM := ih hrestL hrestM fun k => by
          by_cases hk : d.1 = k
          · subst hk
            rw [lookIn_eq_none hd, lookIn_eq_none fun e he => heq ▸ hc e he]
          · simpa [lookIn, heq, hk] using h k
        rw [hrest, show c = d from Prod.ext heq hv]
      · have : lookIn d.1 (c :: restL) = none := lookIn_eq_none fun e he => by
          rcases List.mem_cons.1 he with rfl | he
          · exact hlt
          · exact Std.lt_trans hlt (hc e he)
        have hd' := h d.1
        rw [this] at hd'
        simp [lookIn] at hd'

/-- A table is determined by its look-ups. -/
theorem ext_find? {s t : Table κ α} (h : ∀ k, s.find? k = t.find? k) : s = t := by
  obtain ⟨l, hl⟩ := s
  obtain ⟨m, hm⟩ := t
  have : l = m := eq_of_lookIn_eq hl hm h
  subst this
  rfl

end Table

end LogicBoard
