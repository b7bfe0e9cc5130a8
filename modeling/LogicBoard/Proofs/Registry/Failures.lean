/-
  LogicBoard.Proofs.Registry.Failures
  ────────────────────────────────
  **WHAT A FAILED OPERATION LEAVES BEHIND.**

  A store may fail at any request.  A definition enters the registry after
  its record has been written, so a change that fails has changed nothing.
  Forgetting goes the other way round: the type is gone before its record is
  to be removed.  And a registry that catches up stops at the first type that
  cannot be loaded, and has taken over those before it.

  Main statements:
    • `put_error`, `removeTypes_error` — defining and forgetting,
    • `find?_sync` — what catching up leaves, whether it fails or not,
    • `custom_of_failed` — which failures leave the custom types alone.
-/
import LogicBoard.Proofs.Registry.Operation
import LogicBoard.Store.Directory

namespace LogicBoard.Registry

universe u

variable {σ : Type u} [TypeStore σ] {r r' : Registry σ} {name : Name} {e : StoreError}

/-! ## §1. Defining. -/

theorem put_error {t : ChipType} (h : r.put name t = (.error e, r')) : r'.custom = r.custom := by
  unfold put at h
  dsimp only at h
  split at h
  · obtain ⟨-, rfl⟩ := Prod.mk.inj h
    rfl
  · exact absurd (congrArg Prod.fst h) (by simp)

/-- A change of a definition that fails changes nothing. -/
theorem change_error {α : Type} {refusal : α} {f : ChipType → ChipType × α}
    (h : done (r.change name refusal f) = (.error e, r')) : r'.custom = r.custom := by
  rw [done_change] at h
  split at h
  · exact absurd (congrArg Prod.fst h) (by simp)
  · exact put_error h

omit [TypeStore σ] in
theorem done_error {α : Type} {o : Outcome σ α} (h : done o = (.error e, r')) :
    o = (.error e, r') := by
  obtain ⟨herror, hafter⟩ := Prod.mk.inj h
  exact Prod.ext (Fallible.map_error_iff.1 herror) hafter

/-! ## §2. Forgetting. -/

/-- A type that cannot be removed from the store is forgotten nevertheless. -/
theorem removeType_error (h : r.removeType name = (.error e, r')) :
    r.isCustom name = true ∧ r'.isCustom name = false := by
  unfold removeType at h
  split at h
  · rename_i hcustom
    obtain ⟨-, rfl⟩ := Prod.mk.inj h
    refine ⟨hcustom, ?_⟩
    show ((r.custom.erase name).find? name).isSome = false
    rw [Table.find?_erase, if_pos rfl]
    rfl
  · exact absurd (congrArg Prod.fst h) (by simp)

/-- Forgetting a type brings no other one. -/
theorem isCustom_of_removeType {other : Name} (h : (r.removeType name).2.isCustom other = true) :
    r.isCustom other = true := by
  unfold removeType at h
  split at h
  · obtain ⟨t, ht⟩ := Table.contains_iff.1 h
    change (r.custom.erase name).find? other = some t at ht
    rw [Table.find?_erase] at ht
    split at ht
    · exact absurd ht (by simp)
    · exact Table.contains_iff.2 ⟨t, ht⟩
  · exact h

theorem removeTypes_error {names : List Name} (h : r.removeTypes names = (.error e, r')) :
    ∃ name, r.isCustom name = true ∧ r'.isCustom name = false := by
  induction names generalizing r with
  | nil => exact absurd (congrArg Prod.fst h) (by simp [removeTypes])
  | cons name rest ih =>
    unfold removeTypes at h
    split at h
    · rename_i e₁ r₁ hfirst
      obtain ⟨rfl, rfl⟩ : e₁ = e ∧ r₁ = r' := by simpa using h
      exact ⟨name, removeType_error hfirst⟩
    · rename_i r₁ removed hfirst
      obtain ⟨other, hthere, hgone⟩ := ih h
      have hkept : (r.removeType name).2.isCustom other = true := by
        rw [hfirst]
        exact hthere
      exact ⟨other, isCustom_of_removeType hkept, hgone⟩

/-! ## §3. Catching up. -/

/-- What a store supplies of types one after the other, up to the first that it fails to load. -/
def supplied (store : σ) : List Name → List (Name × Option ChipType)
  | [] => []
  | name :: rest =>
    if isStandard name then supplied store rest
    else
      match TypeStore.load store name with
      | (.error _, _) => []
      | (.ok t?, store) => (name, t?.map ChipType.canonical) :: supplied store rest

/-- The types that are taken over when a registry catches up, and those that are dropped. -/
def taken (r : Registry σ) : Table Name (Option ChipType) :=
  match TypeStore.changes r.store with
  | (.error _, _) => .empty
  | (.ok names, store) => .ofList (supplied store names)

/-- Whatever is supplied is taken over, also if the next type cannot be loaded. -/
theorem custom_syncTypes (r : Registry σ) (names : List Name) : (r.syncTypes names).2.custom
    = (supplied r.store names).foldl (fun t e => t.setTo e.1 e.2) r.custom := by
  induction names generalizing r with
  | nil => rfl
  | cons name rest ih =>
    unfold syncTypes supplied syncType
    by_cases hname : isStandard name = true
    · rw [if_pos hname, if_pos hname]
      exact ih r
    · rw [if_neg hname, if_neg hname]
      cases TypeStore.load r.store name with
      | mk result store =>
        cases result with
        | error e => rfl
        | ok t? =>
          -- Both sides go on with the same store and the same table.
          cases t? with
          | none => exact ih _
          | some t => exact ih _

/-- What catching up leaves of the custom types, whether it fails or not. -/
theorem find?_sync (r : Registry σ) (name : Name) :
    r.sync.2.custom.find? name = (r.taken.find? name).getD (r.custom.find? name) := by
  unfold sync taken
  cases TypeStore.changes r.store with
  | mk result store =>
    cases result with
    | error e => rfl
    | ok names =>
      dsimp only
      rw [custom_syncTypes, Table.find?_foldl_setTo]

/-! ## §4. Operations. -/

/-- If the operation fails, then it has not changed any type by then: it does not forget types, and
what it takes over is what the registry has. -/
def Operation.IsHarmless (r : Registry σ) : Operation → Prop
  | removeType _ | reset => False
  | sync => ∀ name t?, r.taken.find? name = some t? → r.custom.find? name = t?
  | _ => True

omit [TypeStore σ] in
/-- The custom types change as soon as one of them is forgotten. -/
theorem custom_ne_of_forgotten (hthere : r.isCustom name = true)
    (hgone : r'.isCustom name = false) : r'.custom ≠ r.custom := by
  intro hsame
  unfold isCustom at hthere hgone
  rw [hsame, hthere] at hgone
  exact absurd hgone (by simp)

/-- After an operation that has failed, the custom types are those before it exactly if the
operation is a harmless one. -/
theorem custom_of_failed {op : Operation} (h : r.apply op = (.error e, r')) :
    r'.custom = r.custom ↔ op.IsHarmless r := by
  cases op with
  | newType name =>
    unfold apply newType at h
    exact iff_of_true (change_error h) trivial
  | setSize name size =>
    unfold apply setSize at h
    exact iff_of_true (change_error h) trivial
  | setPort name position port output =>
    unfold apply setPort at h
    exact iff_of_true (change_error h) trivial
  | addConstant name constant =>
    unfold apply addConstant at h
    exact iff_of_true (change_error h) trivial
  | removeConstant name constant =>
    unfold apply removeConstant at h
    exact iff_of_true (change_error h) trivial
  | setContent name content =>
    unfold apply setContent at h
    exact iff_of_true (change_error h) trivial
  | setBaseType name => exact absurd (congrArg Prod.fst h) (by simp [apply])
  | removeType name =>
    obtain ⟨hthere, hgone⟩ := removeType_error (done_error h)
    exact iff_of_false (custom_ne_of_forgotten hthere hgone) id
  | reset =>
    obtain ⟨forgotten, hthere, hgone⟩ := removeTypes_error h
    exact iff_of_false (custom_ne_of_forgotten hthere hgone) id
  | sync =>
    obtain rfl : r.sync.2 = r' := congrArg Prod.snd (done_error h)
    constructor
    · intro hsame name t? htaken
      rw [← hsame, find?_sync, htaken]
      rfl
    · intro hharmless
      refine Table.ext_find? fun name => ?_
      rw [find?_sync]
      cases htaken : r.taken.find? name with
      | none => rfl
      | some t? => exact (hharmless name t? htaken).symm

/-- A registry whose directory cannot be made, because there is a file in its place. -/
def walledOff : Registry DirectoryStore where
  custom := .empty
  base := ⟨"base"⟩
  baseMaxSize := ⟨10, 10⟩
  route := {}
  store := .ofDir ((Disk.ofHome ["home"]).place "types" (.text "")) "types" "T_"

theorem custom_of_failed_walledOff : ∃ r',
    walledOff.apply (.newType ⟨"cell"⟩) = (.error (.disk "types" .exists), r') ∧
      (r'.custom = walledOff.custom ↔ (Operation.newType ⟨"cell"⟩).IsHarmless walledOff) := by
  have hfailed : (walledOff.apply (.newType ⟨"cell"⟩)).1 = .error (.disk "types" .exists) := by
    decide +kernel
  have hrun : walledOff.apply (.newType ⟨"cell"⟩)
      = (.error (.disk "types" .exists), (walledOff.apply (.newType ⟨"cell"⟩)).2) := by
    rw [← hfailed]
  exact ⟨_, hrun, custom_of_failed hrun⟩

/-- A registry that was opened before two records came into its directory, of which only the first
can be read. -/
def halfLegible : Registry DirectoryStore where
  custom := .empty
  base := ⟨"base"⟩
  baseMaxSize := ⟨10, 10⟩
  route := {}
  store := .ofDir (((Disk.ofHome ["home"]).place "types/T_half.json" (.text "\x7b\x7d")).place
    "types/T_pair.json" (.text "\x7b bad")) "types" "T_"

/-- Catching up fails, and yet there is one type more than before. -/
theorem custom_halfLegible : ∃ r', halfLegible.apply .sync
    = (.error (.record "types/T_pair.json"), r') ∧ r'.custom ≠ halfLegible.custom := by
  have hfailed : (halfLegible.apply .sync).1 = .error (.record "types/T_pair.json") := by
    decide +kernel
  have hnames : (halfLegible.apply .sync).2.custom.keys = [⟨"half"⟩] := by decide +kernel
  refine ⟨(halfLegible.apply .sync).2, by rw [← hfailed], fun hsame => ?_⟩
  rw [hsame] at hnames
  exact absurd hnames (by decide +kernel)

end LogicBoard.Registry
