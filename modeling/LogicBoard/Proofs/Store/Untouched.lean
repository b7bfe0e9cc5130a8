/-
  LogicBoard.Proofs.Store.Untouched
  ────────────────────────────────
  **A DIRECTORY THAT NOBODY ELSE TOUCHES.**

  In a directory where nothing began with the stem, what begins with it are
  the files of types that were saved.  So a path with a slash in the type's
  name leads nowhere, and every other path leads to the type's own file,
  which holds the record of the type or nothing.  Requests may fail; then they
  make at most the directory.

  Main statements:
    • `Sound.locate` — where the path of a type leads,
    • `Sound.ask`, `Sound.run` — whatever a store is asked, it keeps the
      records of all types that are not meant,
    • `exists_plain_run` — no name on the disk gets a slash.
-/
import LogicBoard.Proofs.Store.Interchange
import LogicBoard.Proofs.Store.Names

namespace LogicBoard

universe u

open TypeStore

namespace TypeStore

/-- The request is about keeping something else, or nothing, under the name. -/
def Request.Replaces (name : Name) : Request → Prop
  | .save other _ | .remove other => other = name
  | .loadAll | .load _ | .changes => False

/-- The store after requests that are made one after the other. -/
def run {σ : Type u} [TypeStore σ] (s : σ) (requests : List Request) : σ :=
  requests.foldl (fun s request => (ask s request).2) s

theorem run_cons {σ : Type u} [TypeStore σ] (s : σ) (request : Request) (rest : List Request) :
    run s (request :: rest) = run (ask s request).2 rest := rfl

theorem run_append {σ : Type u} [TypeStore σ] (s : σ) (before after : List Request) :
    run s (before ++ after) = run (run s before) after := List.foldl_append

end TypeStore

namespace DirectoryStore

variable {s : DirectoryStore} {name : Name}

/-! ## §1. Directories that nobody else touches. -/

/-- Where the directory is, nothing begins with the stem. -/
def IsUntouched (s : DirectoryStore) : Prop :=
  ∀ p, s.IsAt p → ∀ file : String, s.stem.toList <+: file.toList →
    s.disk.entryAt? (p ++ [file]) = none

/-- Once the directory is made, no directory in it begins with the stem. -/
def IsClosed (s : DirectoryStore) : Prop :=
  ∀ p, IsAt { s with disk := (s.disk.makeFolders s.dir).2 } p → ∀ file : String,
    s.stem.toList <+: file.toList →
      (s.disk.makeFolders s.dir).2.entryAt? (p ++ [file]) ≠ some .folder

/-- A name with a slash leads into a directory that begins with the stem, unless the stem counts
for nothing in a path or leads back. -/
def StaysInside (s : DirectoryStore) (name : Name) : Prop :=
  '/' ∈ name.text.toList → s.stem ≠ "" ∧ s.stem ≠ "." ∧ s.stem ≠ ".."

/-- The directory is at one place only, so it is enough to look there. -/
theorem isUntouched_of_isAt {p : Place} (hp : s.IsAt p)
    (h : ∀ file : String, s.stem.toList <+: file.toList → s.disk.entryAt? (p ++ [file]) = none) :
    s.IsUntouched := by
  intro q hq
  obtain rfl := hp.unique hq
  exact h

theorem IsUntouched.hasNoRecords (h : s.IsUntouched) : s.HasNoRecords := by
  intro p hp file name hname
  obtain ⟨mid, -, hfile, -⟩ := nameOf?_eq_some_iff.1 hname
  exact h p hp file ⟨mid ++ ending.toList, by rw [hfile, List.append_assoc]⟩

theorem IsClosed.of_isAt (h : s.IsClosed) (hdir : s.dir ≠ "") {p : Place} (hp : s.IsAt p)
    {file : String} (hfile : s.stem.toList <+: file.toList) :
    s.disk.entryAt? (p ++ [file]) ≠ some .folder := by
  have hmade := makeFolders_of_isAt hdir hp
  have hclosed := h p (by rwa [hmade]) file hfile
  rwa [hmade] at hclosed

/-- With a stem that stays inside, what begins with it is a part of a path. -/
theorem isFile_stem {front : List Char} (hstem : '/' ∉ s.stem.toList) (hfront : '/' ∉ front)
    (hne : s.stem ≠ "" ∧ s.stem ≠ "." ∧ s.stem ≠ "..") :
    Path.IsFile (String.ofList (s.stem.toList ++ front)) := by
  obtain ⟨hempty, hdot, hdots⟩ := hne
  replace hempty := mt String.toList_eq_nil_iff.1 hempty
  rw [ne_eq, ← String.toList_inj] at hdot hdots
  constructor
  case slash =>
    rw [String.toList_ofList, List.mem_append, not_or]
    exact ⟨hstem, hfront⟩
  all_goals
    rw [ne_eq, ← String.toList_inj, String.toList_ofList]
    intro h
  case empty => exact hempty (List.append_eq_nil_iff.1 h).1
  case dot =>
    rcases List.append_eq_singleton_iff.1 h with ⟨hnone, -⟩ | ⟨hone, -⟩
    · exact hempty hnone
    · exact hdot hone
  case dots =>
    rcases List.append_eq_cons_iff.1 h with ⟨hnone, -⟩ | ⟨rest, hsome, hrest⟩
    · exact hempty hnone
    · rcases List.append_eq_singleton_iff.1 hrest.symm with ⟨rfl, -⟩ | ⟨rfl, -⟩
      · exact hdot hsome
      · exact hdots hsome

/-- In a closed directory paths of types with slashes in their names lead nowhere. -/
theorem plain_of_locate (hdir : s.dir ≠ "") (hstem : '/' ∉ s.stem.toList) (hclosed : s.IsClosed)
    (hinside : s.StaysInside name) {q : Place} (hq : s.disk.locate (s.pathOf name) = .ok q) :
    '/' ∉ name.text.toList := by
  intro hslash
  obtain ⟨front, back, hname, hfront⟩ := List.eq_append_cons_of_mem hslash
  have hfirst := isFile_stem hstem hfront (hinside hslash)
  have hfile : (s.fileOf name).toList = (String.ofList (s.stem.toList ++ front)).toList
      ++ '/' :: (back ++ ending.toList) := by
    rw [toList_fileOf, hname, String.toList_ofList]
    simp only [List.append_assoc, List.cons_append]
  obtain ⟨hrelative, hparts⟩ := Path.parts_join_of_slash hdir hfirst hfile
  -- More than the first part is left, so the first part has to be a directory.
  have hback : String.ofList (back ++ ending.toList) = String.ofList back ++ ending := by
    rw [← String.toList_inj]
    simp
  obtain ⟨part, rest, hrest⟩ :=
    Path.exists_parts_cons (fun _ => isFile_append_ending) (String.ofList back)
  have horigin := origin_pathOf hdir hrelative
  obtain ⟨-, hfollow⟩ := Disk.locate_ok_iff.1 hq
  rw [show Path.parts (s.pathOf name) = _ from hparts, hback, hrest, horigin] at hfollow
  obtain ⟨p, hp, hfolder, hinner⟩ := Disk.folders_of_follow hfirst.dots hfollow
  refine hclosed.of_isAt hdir ⟨hp, hfolder⟩ ?_ hinner
  rw [String.toList_ofList]
  exact List.prefix_append _ _

/-! ## §2. Stores that nobody else touches. -/

/-- The directory holds records that all tell definitions, and no path of a type can lead through
it. -/
structure Sound (s : DirectoryStore) (records : Table Name String) : Prop where
  holds : s.Holds records
  tells : Tells records told
  stem : '/' ∉ s.stem.toList
  closed : s.IsClosed

variable {records : Table Name String}

theorem sound_empty (hdir : s.dir ≠ "") (hstem : '/' ∉ s.stem.toList)
    (h : IsUntouched { s with disk := (s.disk.makeFolders s.dir).2 }) : s.Sound .empty where
  holds := holds_empty hdir h.hasNoRecords
  tells := fun name text htext => absurd htext (by simp [Table.find?_empty])
  stem := hstem
  closed := fun p hp file hfile hentry => by
    have hnone := h p hp file hfile
    exact absurd (hnone.symm.trans hentry) (by simp)

/-- What is remembered of records does not matter. -/
theorem Sound.see (h : s.Sound records) (seen : Table Name Digest) :
    Sound { s with seen } records :=
  ⟨h.holds.see seen, h.tells, h.stem, h.closed⟩

theorem Sound.made (h : s.Sound records) :
    Sound { s with disk := (s.disk.makeFolders s.dir).2 } records := by
  refine ⟨h.holds.made, h.tells, h.stem, ?_⟩
  unfold IsClosed
  dsimp only
  rw [Disk.makeFolders_again]
  exact h.closed

/-- Where the path of a type leads, if it leads anywhere. -/
theorem Sound.locate (h : s.Sound records) (hinside : s.StaysInside name) {q : Place}
    (hq : s.disk.locate (s.pathOf name) = .ok q) :
    '/' ∉ name.text.toList ∧ s.IsShort name ∧ ∃ p, s.IsAt p ∧ q = p ++ [s.fileOf name] := by
  have hname := plain_of_locate h.holds.dir h.stem h.closed hinside hq
  exact ⟨hname, (locate_iff_of_isFile h.holds.dir (isFile_of_plain h.stem hname)).1 hq⟩

/-- A file that tells no type can be changed without a record being changed. -/
theorem Holds.rewrites_other (h : s.Holds records)
    (hname : ∀ other, s.nameOf? (s.fileOf name) ≠ some other) {p : Place} {o : Option String}
    {disk : Disk} (hp : s.IsAt p)
    (hrewrites : s.Rewrites p name o disk) (hshort : o ≠ none → s.IsShort name) :
    Holds { s with disk } records := by
  refine ⟨h.dir, hrewrites.kept h.dir hp (fun other hother => absurd hother (hname other)) hshort
    (h.kept.owns hp), h.named, fun other hother => ?_⟩
  rw [hrewrites.onDisk h.dir hp hshort hother, if_neg]
  · exact h.onDisk other hother
  · rintro rfl
    exact hname other (nameOf?_fileOf h.dir hother)

/-- When the file of a type is changed, at most the type's record is changed. -/
theorem Sound.rewrites (h : s.Sound records) (hname : name.IsFolded)
    (hplain : '/' ∉ name.text.toList) {p : Place} {o : Option String} {disk : Disk} (hp : s.IsAt p)
    (hrewrites : s.Rewrites p name o disk) (hshort : o ≠ none → s.IsShort name)
    (htell : ∀ text, o = some text → ∀ path, ChipType.ofRecordText path text = .ok (told text)) :
    Sound { s with disk } (if name.text = "" then records else records.setTo name o) where
  holds := by
    split
    · rename_i hempty
      refine h.holds.rewrites_other (fun other hother => ?_) hp hrewrites hshort
      exact ((nameOf?_fileOf_iff hname).1 hother).1 hempty
    · rename_i hempty
      have hrecord := (isRecordName_iff h.holds.dir hname).2 ⟨h.stem, hplain, hempty⟩
      exact h.holds.rewrites hrecord hp hrewrites hshort
  tells := by
    split
    · exact h.tells
    · intro other text htext
      rw [Table.find?_setTo] at htext
      split at htext
      · exact htell text htext
      · exact h.tells other text htext
  stem := h.stem
  closed := by
    have hmade := makeFolders_of_isAt (s := { s with disk }) h.holds.dir (hrewrites.isAt hp)
    intro q hq file hfile
    rw [hmade] at hq ⊢
    obtain rfl := (hrewrites.isAt hp).unique hq
    rw [hrewrites.entries]
    split
    · cases o <;> simp
    · exact h.closed.of_isAt h.holds.dir hp hfile

/-! ## §3. Requests. -/

/-- A type is not saved, and then no record changes; or it is saved, and then its record is the only
one that changes. -/
theorem Sound.save (h : s.Sound records) (hname : name.IsFolded) (hinside : s.StaysInside name)
    {t : ChipType} (ht : t.IsStorable) :
    (∃ e disk, s.save name t = (.error e, { s with disk }) ∧ Sound { s with disk } records) ∨
      ∃ disk seen, s.save name t = (.ok (), { s with disk, seen }) ∧
        Sound { s with disk, seen }
          (if name.text = "" then records else records.setTo name (some t.recordText)) := by
  have hmade := h.made
  unfold DirectoryStore.save
  cases hresult : s.disk.makeFolders s.dir with
  | mk result made =>
    rw [hresult] at hmade
    cases result with
    | error e => exact Or.inl ⟨_, made, rfl, hmade⟩
    | ok =>
      dsimp only
      cases hwrite : made.writeText (s.pathOf name) t.recordText with
      | error e => exact Or.inl ⟨_, made, rfl, hmade⟩
      | ok disk =>
        obtain ⟨q, hlocate, hfree, rfl⟩ := Disk.write_ok hwrite
        obtain ⟨hplain, hshort, p, hp, rfl⟩ := hmade.locate hinside hlocate
        refine Or.inr ⟨_, _, rfl, Sound.see ?_ _⟩
        refine hmade.rewrites hname hplain hp (rewrites_put hfree t.recordText) (fun _ => hshort) ?_
        rintro text htext path
        obtain rfl := Option.some.inj htext
        rw [told_recordText ht, ChipType.ofRecordText_reread ht]

/-- Removing a type changes no other record. -/
theorem Sound.remove (h : s.Sound records) (hname : name.IsFolded) (hinside : s.StaysInside name) :
    ∃ disk seen records', (s.remove name).2 = { s with disk, seen } ∧
      Sound { s with disk, seen } records' ∧
      ∀ other, other ≠ name → records'.find? other = records.find? other := by
  unfold DirectoryStore.remove
  dsimp only
  cases hremove : s.disk.remove (s.pathOf name) with
  | ok disk =>
    obtain ⟨q, hlocate, hfree, rfl⟩ := Disk.remove_ok hremove
    obtain ⟨hplain, -, p, hp, rfl⟩ := h.locate hinside hlocate
    refine ⟨_, _, _, rfl,
      (h.rewrites hname hplain hp (rewrites_erase hfree) (by simp) (by simp)).see _, ?_⟩
    intro other hother
    split
    · rfl
    · rw [Table.find?_setTo, if_neg (Ne.symm hother)]
  | error e =>
    by_cases he : e = .notFound
    · subst he
      exact ⟨s.disk, _, records, rfl, h.see _, fun _ _ => rfl⟩
    · refine ⟨s.disk, s.seen, records, ?_, h, fun _ _ => rfl⟩
      cases e <;> first | exact absurd rfl he | rfl

/-- Loading a type changes at most what is remembered. -/
theorem exists_seen_load (s : DirectoryStore) (name : Name) :
    ∃ seen, (s.load name).2 = { s with seen } := by
  rw [load_eq]
  split
  · exact ⟨s.seen, rfl⟩
  · split
    · exact ⟨s.seen, rfl⟩
    · exact ⟨_, rfl⟩

theorem exists_seen_readRecords (l : List (Name × String × String)) (s : DirectoryStore) :
    ∃ seen, (s.readRecords l).2 = { s with seen } := by
  induction l generalizing s with
  | nil => exact ⟨s.seen, rfl⟩
  | cons e rest ih =>
    unfold readRecords
    dsimp only
    split
    · exact ⟨s.seen, rfl⟩
    · obtain ⟨seen, hseen⟩ := ih (s.see e.1 e.2.2)
      exact ⟨seen, hseen⟩

theorem exists_seen_loadAll (s : DirectoryStore) : ∃ seen, s.loadAll.2 = { s with seen } := by
  unfold DirectoryStore.loadAll
  split
  · exact ⟨s.seen, rfl⟩
  · obtain ⟨seen, hseen⟩ := exists_seen_readRecords (Table.entries _) { s with seen := .empty }
    exact ⟨seen, hseen⟩

/-! ## §4. Many requests. -/

/-- The names are folded, what is saved is made of values that a design can have, and no path leads
out of the directory. -/
def IsKeepable (s : DirectoryStore) : Request → Prop
  | .save name t => (name.IsFolded ∧ t.IsStorable) ∧ s.StaysInside name
  | .remove name => name.IsFolded ∧ s.StaysInside name
  | .loadAll | .load _ | .changes => True

/-- **Whatever the store is asked, it stays sound, and the records of types that are not meant stay
as they are.** -/
theorem Sound.ask (h : s.Sound records) {request : Request} (hkeepable : s.IsKeepable request) :
    ∃ disk seen records', (TypeStore.ask s request).2 = { s with disk, seen } ∧
      Sound { s with disk, seen } records' ∧
      ∀ name, ¬ request.Replaces name → records'.find? name = records.find? name := by
  cases request with
  | loadAll =>
    obtain ⟨seen, hseen⟩ := s.exists_seen_loadAll
    exact ⟨s.disk, seen, records, hseen, h.see seen, fun _ _ => rfl⟩
  | load name =>
    obtain ⟨seen, hseen⟩ := s.exists_seen_load name
    exact ⟨s.disk, seen, records, hseen, h.see seen, fun _ _ => rfl⟩
  | changes => exact ⟨s.disk, s.seen, records, rfl, h, fun _ _ => rfl⟩
  | save name t =>
    rcases h.save hkeepable.1.1 hkeepable.2 hkeepable.1.2 with
      ⟨e, disk, hsave, hsound⟩ | ⟨disk, seen, hsave, hsound⟩
    · exact ⟨disk, s.seen, records, congrArg Prod.snd hsave, hsound, fun _ _ => rfl⟩
    · refine ⟨disk, seen, _, congrArg Prod.snd hsave, hsound, fun other hother => ?_⟩
      split
      · rfl
      · rw [Table.find?_setTo]
        exact if_neg hother
  | remove name =>
    obtain ⟨disk, seen, records', hremove, hsound, hsame⟩ := h.remove hkeepable.1 hkeepable.2
    exact ⟨disk, seen, records', hremove, hsound, fun other hother => hsame other (Ne.symm hother)⟩

/-- What every request keeps is kept by a whole run. -/
theorem Sound.run (h : s.Sound records) {requests : List Request}
    (hkeepable : ∀ request ∈ requests, s.IsKeepable request) :
    ∃ disk seen records', TypeStore.run s requests = { s with disk, seen } ∧
      Sound { s with disk, seen } records' ∧
      ∀ name, (∀ request ∈ requests, ¬ request.Replaces name) →
        records'.find? name = records.find? name := by
  induction requests generalizing s records with
  | nil => exact ⟨s.disk, s.seen, records, rfl, h, fun _ _ => rfl⟩
  | cons request rest ih =>
    obtain ⟨hfirst, hrest⟩ := List.forall_mem_cons.1 hkeepable
    obtain ⟨disk, seen, records', hask, hsound, hsame⟩ := h.ask hfirst
    -- Which requests are keepable depends on the stem only, so the others still are.
    have hlater : ∀ r ∈ rest, IsKeepable { s with disk, seen } r := fun r hr => by
      have := hrest r hr
      cases r <;> exact this
    obtain ⟨disk', seen', records'', hrun, hsound', hsame'⟩ := ih hsound hlater
    refine ⟨disk', seen', records'', ?_, hsound', fun name hname => ?_⟩
    · rw [run_cons, hask]
      exact hrun
    · obtain ⟨hnot, hnone⟩ := List.forall_mem_cons.1 hname
      rw [hsame' name hnone, hsame name hnot]

/-- Nothing that a store is asked brings slashes into the names on the disk. -/
theorem exists_plain_ask (h : s.disk.IsPlain) (request : Request) :
    ∃ disk seen, (TypeStore.ask s request).2 = { s with disk, seen } ∧ disk.IsPlain := by
  cases request with
  | loadAll =>
    obtain ⟨seen, hseen⟩ := s.exists_seen_loadAll
    exact ⟨s.disk, seen, hseen, h⟩
  | load name =>
    obtain ⟨seen, hseen⟩ := s.exists_seen_load name
    exact ⟨s.disk, seen, hseen, h⟩
  | changes => exact ⟨s.disk, s.seen, rfl, h⟩
  | save name t =>
    show ∃ disk seen, (s.save name t).2 = { s with disk, seen } ∧ disk.IsPlain
    have hmade := h.makeFolders s.dir
    unfold DirectoryStore.save
    cases hresult : s.disk.makeFolders s.dir with
    | mk result made =>
      rw [hresult] at hmade
      cases result with
      | error e => exact ⟨made, s.seen, rfl, hmade⟩
      | ok =>
        dsimp only
        cases hwrite : made.writeText (s.pathOf name) t.recordText with
        | error e => exact ⟨made, s.seen, rfl, hmade⟩
        | ok disk => exact ⟨disk, _, rfl, hmade.write hwrite⟩
  | remove name =>
    show ∃ disk seen, (s.remove name).2 = { s with disk, seen } ∧ disk.IsPlain
    unfold DirectoryStore.remove
    dsimp only
    cases hremove : s.disk.remove (s.pathOf name) with
    | ok disk => exact ⟨disk, _, rfl, h.remove hremove⟩
    | error e => cases e <;> exact ⟨s.disk, _, rfl, h⟩

theorem exists_plain_run (h : s.disk.IsPlain) (requests : List Request) :
    ∃ disk seen, TypeStore.run s requests = { s with disk, seen } ∧ disk.IsPlain := by
  induction requests generalizing s with
  | nil => exact ⟨s.disk, s.seen, rfl, h⟩
  | cons request rest ih =>
    obtain ⟨disk, seen, hask, hplain⟩ := exists_plain_ask h request
    obtain ⟨disk', seen', hrun, hplain'⟩ := ih (s := { s with disk, seen }) hplain
    refine ⟨disk', seen', ?_, hplain'⟩
    rw [run_cons, hask]
    exact hrun

end DirectoryStore

end LogicBoard
