/-
  LogicBoard.Proofs.Registry.Polling
  ────────────────────────────────
  **CATCHING UP TWICE.**

  A directory may hold anything, and a registry that catches up is told the
  names under which it finds other records than it has seen.  It takes each
  of these types over from the type's own file.  A second turn changes
  nothing more; but it reports a name again whose record was not taken over,
  because the name is that of a standard type, or because the record that was
  found under it is not the one in the type's own file.

  Main statements:
    • `syncType_ok_iff` — what one turn does to one type,
    • `learns_syncTypes`, `syncTypes_eq_self` — a turn takes over all types that
      it is told of, and a type that was taken over stays so,
    • `sync_twice` — what a second turn reports, and when that is nothing.
-/
import LogicBoard.Proofs.Registry.Operation
import LogicBoard.Proofs.Store.Records

namespace LogicBoard

open DirectoryStore (definition? marked foundDigests)

/-- What is found in the directory under the name is not what is in the type's own file. -/
def DirectoryStore.IsAstray (s : DirectoryStore) (name : Name) : Prop :=
  ∃ found text?, s.scan = .ok found ∧ s.read (s.pathOf name) = .ok text? ∧
    (foundDigests found).find? name ≠ text?.map Digest.ofText

namespace Registry

variable {r r' : Registry DirectoryStore} {name : Name}

/-! ## §1. One type. -/

/-- The registry once it has the definition from a record, and remembers the record's digest. -/
def taking (r : Registry DirectoryStore) (name : Name) (text? : Option String)
    (t? : Option ChipType) : Registry DirectoryStore :=
  { r with
    custom := r.custom.setTo name (t?.map ChipType.canonical)
    store := r.store.marked name text? }

/-- A type is taken over as its file has it. -/
theorem syncType_ok_iff (hname : isStandard name = false) :
    r.syncType name = (.ok (), r') ↔ ∃ text? t?, r.store.read (r.store.pathOf name) = .ok text? ∧
      definition? (r.store.pathOf name) text? = .ok t? ∧ r' = r.taking name text? t? := by
  unfold syncType
  rw [if_neg (by simp [hname])]
  dsimp only [TypeStore.load]
  constructor
  · intro h
    split at h
    · exact absurd (congrArg Prod.fst h) (by simp)
    · rename_i t store hload
      obtain ⟨text?, hread, hdefinition, rfl⟩ := DirectoryStore.load_ok_iff.1 hload
      exact ⟨text?, some t, hread, hdefinition, (Prod.mk.inj h).2.symm⟩
    · rename_i store hload
      obtain ⟨text?, hread, hdefinition, rfl⟩ := DirectoryStore.load_ok_iff.1 hload
      exact ⟨text?, none, hread, hdefinition, (Prod.mk.inj h).2.symm⟩
  · rintro ⟨text?, t?, hread, hdefinition, rfl⟩
    rw [DirectoryStore.load_ok_iff.2 ⟨text?, hread, hdefinition, rfl⟩]
    cases t? <;> rfl

/-- The type is one that is not taken over, or the registry has it as its file has it, both in
memory and among the digests. -/
def HasTaken (r : Registry DirectoryStore) (name : Name) : Prop :=
  isStandard name = true ∨ ∃ text? t?, r.store.read (r.store.pathOf name) = .ok text? ∧
    definition? (r.store.pathOf name) text? = .ok t? ∧
    r.custom.find? name = t?.map ChipType.canonical ∧
    r.store.seen.find? name = text?.map Digest.ofText

/-- Taking over again what was taken over changes nothing. -/
theorem HasTaken.syncType_eq (h : r.HasTaken name) : r.syncType name = (.ok (), r) := by
  by_cases hname : isStandard name = true
  · unfold syncType
    rw [if_pos hname]
  · obtain ⟨text?, t?, hread, hdefinition, hcustom, hseen⟩ := h.resolve_left hname
    refine (syncType_ok_iff (by simpa using hname)).2 ⟨text?, t?, hread, hdefinition, ?_⟩
    unfold taking DirectoryStore.marked
    rw [Table.setTo_eq_self hcustom, Table.setTo_eq_self hseen]

/-- What a turn leaves of a registry: it only learns about types that it is told of and that are
not standard, and it has all types that it had taken over before. -/
structure Learns (r : Registry DirectoryStore) (names : List Name) (r' : Registry DirectoryStore) :
    Prop where
  store : r'.store = { r.store with seen := r'.store.seen }
  seen : ∀ name, name ∉ names ∨ isStandard name = true →
    r'.store.seen.find? name = r.store.seen.find? name
  taken : ∀ name, name ∈ names ∨ r.HasTaken name → r'.HasTaken name

theorem HasTaken.taking {other : Name} {text? : Option String} {t? : Option ChipType}
    (hread : r.store.read (r.store.pathOf name) = .ok text?)
    (hdefinition : definition? (r.store.pathOf name) text? = .ok t?)
    (h : other = name ∨ r.HasTaken other) : (r.taking name text? t?).HasTaken other := by
  by_cases heq : name = other
  · subst heq
    refine Or.inr ⟨text?, t?, hread, hdefinition, ?_, ?_⟩
    · exact (Table.find?_setTo _ _ _ _).trans (if_pos rfl)
    · exact (Table.find?_setTo _ _ _ _).trans (if_pos rfl)
  · -- Nothing that concerns another type is touched, neither on the disk nor in the tables.
    rcases h.resolve_left (Ne.symm heq) with
      hstandard | ⟨u?, v?, hread', hdefinition', hcustom, hseen⟩
    · exact Or.inl hstandard
    · refine Or.inr ⟨u?, v?, hread', hdefinition', ?_, ?_⟩
      · exact (Table.find?_setTo _ _ _ _).trans ((if_neg heq).trans hcustom)
      · exact (Table.find?_setTo _ _ _ _).trans ((if_neg heq).trans hseen)

theorem learns_syncType (h : r.syncType name = (.ok (), r')) : r.Learns [name] r' := by
  by_cases hname : isStandard name = true
  · have hsame : r' = r := by
      unfold syncType at h
      rw [if_pos hname] at h
      exact (Prod.mk.inj h).2.symm
    subst hsame
    refine ⟨rfl, fun _ _ => rfl, fun other hother => ?_⟩
    rcases hother with hmem | htaken
    · obtain rfl := List.mem_singleton.1 hmem
      exact Or.inl hname
    · exact htaken
  · obtain ⟨text?, t?, hread, hdefinition, rfl⟩ :=
      (syncType_ok_iff (by simpa using hname)).1 h
    constructor
    case store => rfl
    case seen =>
      intro other hother
      have hne : name ≠ other := by
        rintro rfl
        exact hother.elim (fun h => h (List.mem_singleton_self _)) hname
      exact (Table.find?_setTo _ _ _ _).trans (if_neg hne)
    case taken =>
      intro other hother
      exact HasTaken.taking hread hdefinition (hother.imp_left List.mem_singleton.1)

/-! ## §2. A turn. -/

theorem learns_refl (r : Registry DirectoryStore) : r.Learns [] r where
  store := rfl
  seen := fun _ _ => rfl
  taken := fun _ h => h.resolve_left List.not_mem_nil

/-- One type after the other is learned. -/
theorem Learns.cons {r₁ r₂ : Registry DirectoryStore} {rest : List Name}
    (h : r.Learns [name] r₁) (hrest : r₁.Learns rest r₂) : r.Learns (name :: rest) r₂ := by
  constructor
  case store => rw [hrest.store, h.store]
  case seen =>
    intro other hother
    have hfirst : other ∉ [name] ∨ isStandard other = true :=
      hother.imp_left (mt fun h => List.mem_cons.2 (Or.inl (List.mem_singleton.1 h)))
    have hlater : other ∉ rest ∨ isStandard other = true :=
      hother.imp_left fun hmem => mt (List.mem_cons_of_mem _) hmem
    rw [hrest.seen other hlater, h.seen other hfirst]
  case taken =>
    intro other hother
    -- What was taken over first stays taken over.
    refine hrest.taken other ?_
    rcases hother with hmem | htaken
    · rcases List.mem_cons.1 hmem with rfl | hlater
      · exact Or.inr (h.taken _ (Or.inl (List.mem_singleton_self _)))
      · exact Or.inl hlater
    · exact Or.inr (h.taken other (Or.inr htaken))

/-- A turn that succeeds takes over all types that it is told of. -/
theorem learns_syncTypes {names : List Name} (h : r.syncTypes names = (.ok (), r')) :
    r.Learns names r' := by
  induction names generalizing r with
  | nil =>
    obtain rfl : r = r' := (Prod.mk.inj h).2
    exact learns_refl r
  | cons name rest ih =>
    unfold syncTypes at h
    split at h
    · exact absurd (congrArg Prod.fst h) (by simp)
    · rename_i r₁ hfirst
      exact (learns_syncType hfirst).cons (ih h)

/-- A turn in which all types were taken over before changes nothing. -/
theorem syncTypes_eq_self {names : List Name} (h : ∀ name ∈ names, r.HasTaken name) :
    r.syncTypes names = (.ok (), r) := by
  induction names with
  | nil => rfl
  | cons name rest ih =>
    obtain ⟨hfirst, hrest⟩ := List.forall_mem_cons.1 h
    unfold syncTypes
    rw [hfirst.syncType_eq]
    exact ih hrest

theorem sync_ok_iff {names : List Name} : r.sync = (.ok names, r') ↔
    r.store.changes = .ok names ∧ r.syncTypes names = (.ok (), r') := by
  unfold sync
  dsimp only [TypeStore.changes]
  cases r.store.changes with
  | error e => simp
  | ok told =>
    dsimp only
    cases hturn : r.syncTypes told with
    | mk result after =>
      cases result with
      | error e =>
        constructor
        · intro h
          exact absurd (congrArg Prod.fst h) (by simp [Except.map])
        · rintro ⟨htold, h⟩
          obtain rfl := Except.ok.inj htold
          exact absurd (congrArg Prod.fst (hturn.symm.trans h)) (by simp)
      | ok =>
        constructor
        · intro h
          obtain ⟨htold, rfl⟩ := Prod.mk.inj h
          obtain rfl : told = names := Except.ok.inj htold
          exact ⟨rfl, hturn⟩
        · rintro ⟨htold, h⟩
          obtain rfl := Except.ok.inj htold
          obtain rfl := (Prod.mk.inj (hturn.symm.trans h)).2
          rfl

/-! ## §3. Two turns. -/

/-- Looking through the directory does not depend on what was seen. -/
theorem Learns.scan {names : List Name} (h : r.Learns names r') : r'.store.scan = r.store.scan := by
  rw [h.store]
  rfl

/-- After a turn, the digest that is remembered of a type is the one that was found, unless the name
was reported and the record was not taken over, or is not the one in the type's own file. -/
theorem Learns.seen_eq_iff {names : List Name} {found : Table Name (String × String)}
    (h : r.Learns names r') (hscan : r.store.scan = .ok found)
    (hmem : ∀ name, name ∈ names ↔ r.store.seen.find? name ≠ (foundDigests found).find? name)
    (name : Name) : r'.store.seen.find? name ≠ (foundDigests found).find? name ↔
      name ∈ names ∧ (isStandard name = true ∨ r.store.IsAstray name) := by
  by_cases hname : name ∈ names
  · by_cases hstandard : isStandard name = true
    · rw [h.seen name (Or.inr hstandard), ← hmem]
      simp [hname, hstandard]
    · obtain ⟨text?, t?, hread, -, -, hseen⟩ :=
        (h.taken name (Or.inl hname)).resolve_left hstandard
      rw [h.store] at hread
      replace hread : r.store.read (r.store.pathOf name) = .ok text? := hread
      have hastray : r.store.IsAstray name ↔
          (foundDigests found).find? name ≠ text?.map Digest.ofText := by
        constructor
        · rintro ⟨found', text', hscan', hread', hne⟩
          obtain rfl := Except.ok.inj (hscan.symm.trans hscan')
          obtain rfl := Except.ok.inj (hread.symm.trans hread')
          exact hne
        · exact fun hne => ⟨found, text?, hscan, hread, hne⟩
      rw [hseen, hastray, ne_comm]
      simp [hname, hstandard]
  · rw [h.seen name (Or.inl hname), ← hmem]
    simp [hname]

/-- Whatever there is in the directory, a registry that has caught up and catches up once more is
left as it is.  The second turn reports again exactly those names of the first one that are names of
standard types, or under which it finds another record than there is in the type's own file.  So it
reports nothing if and only if there are no such names. -/
theorem sync_twice {names : List Name} (h : r.sync = (.ok names, r')) :
    (∃ left, r'.sync = (.ok left, r') ∧ ∀ name, name ∈ left ↔
      name ∈ names ∧ (isStandard name = true ∨ r.store.IsAstray name)) ∧
    (r'.sync = (.ok [], r') ↔
      ∀ name ∈ names, isStandard name = false ∧ ¬ r.store.IsAstray name) := by
  obtain ⟨hchanges, hturn⟩ := sync_ok_iff.1 h
  have hlearns := learns_syncTypes hturn
  -- The names come from the records that were found, and the second turn finds the same ones.
  obtain ⟨found, hscan, -⟩ := Fallible.bind_ok_iff.1 hchanges
  obtain ⟨told, htold, hmem⟩ := DirectoryStore.changes_of_scan hscan
  obtain rfl : told = names := Except.ok.inj (htold.symm.trans hchanges)
  obtain ⟨left, hleft, hmem'⟩ := DirectoryStore.changes_of_scan (hlearns.scan.trans hscan)
  have hagain : ∀ name, name ∈ left ↔
      name ∈ told ∧ (isStandard name = true ∨ r.store.IsAstray name) := fun name =>
    (hmem' name).trans (hlearns.seen_eq_iff hscan hmem name)
  have hsync : r'.sync = (.ok left, r') := by
    refine sync_ok_iff.2 ⟨hleft, syncTypes_eq_self fun name hname => ?_⟩
    exact hlearns.taken name (Or.inl ((hagain name).1 hname).1)
  refine ⟨⟨left, hsync, hagain⟩, ?_⟩
  have hnothing : r'.sync = (.ok [], r') ↔ left = [] := by
    rw [hsync, Prod.mk.injEq, Except.ok.injEq]
    exact and_iff_left rfl
  rw [hnothing, List.eq_nil_iff_forall_not_mem]
  refine forall_congr' fun name => ?_
  rw [hagain, not_and, not_or, Bool.not_eq_true]

/-! ## §4. Records that are not taken over. -/

/-- A registry that was opened before three records came into its directory: one in the file of its
type, one in a file with a capital letter, and one under the name of a standard type. -/
def shelf : Registry DirectoryStore where
  custom := .empty
  base := ⟨"base"⟩
  baseMaxSize := ⟨10, 10⟩
  route := {}
  store := .ofDir ((((Disk.ofHome ["home"]).place "types/T_cell.json" (.text "\x7b\x7d")).place
    "types/T_Half.json" (.text "\x7b\x7d")).place
    "types/T_and.json" (.text "\x7b\x7d")) "types" "T_"

theorem shelf_sync :
    shelf.sync = (.ok [⟨"and"⟩, ⟨"cell"⟩, ⟨"half"⟩], shelf.sync.2) := by
  have hnames : shelf.sync.1 = .ok [⟨"and"⟩, ⟨"cell"⟩, ⟨"half"⟩] := by decide +kernel
  rw [← hnames]

theorem sync_twice_shelf : shelf.sync = (.ok [⟨"and"⟩, ⟨"cell"⟩, ⟨"half"⟩], shelf.sync.2) ∧
    ∃ left, shelf.sync.2.sync = (.ok left, shelf.sync.2) ∧ ∀ name, name ∈ left ↔
      name ∈ [(⟨"and"⟩ : Name), ⟨"cell"⟩, ⟨"half"⟩] ∧
        (isStandard name = true ∨ shelf.store.IsAstray name) :=
  ⟨shelf_sync, (sync_twice shelf_sync).1⟩

/-- Names are reported that a second turn reports again. -/
theorem not_settled : ¬ ∀ (r r' : Registry DirectoryStore) (names : List Name),
    r.sync = (.ok names, r') → r'.sync = (.ok [], r') := by
  intro h
  have hsettled := congrArg Prod.fst (h shelf _ _ shelf_sync)
  have hagain : shelf.sync.2.sync.1 = .ok [⟨"and"⟩, ⟨"half"⟩] := by decide +kernel
  exact absurd (hagain.symm.trans hsettled) (by simp)

end Registry

end LogicBoard
