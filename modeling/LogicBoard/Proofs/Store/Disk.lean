/-
  LogicBoard.Proofs.Store.Disk
  ────────────────────────────────
  **WHAT OPERATIONS ON A DISK CHANGE.**

  Following a path only asks where directories are.  So a path leads to the
  same place as long as no directory on the way is lost, whatever happens to
  files.

  Main statements:
    • `follow_of_keeps` — a path leads to the same place on both disks,
    • `makeFolders_eq`, `makeFolders_again` — directories that are there, or
      were made, are not made again,
    • `readText_eq`, `write_ok`, `remove_ok`, `list_ok` — the operations,
    • `IsPlain.locate`, `IsPlain.list` — no name gets a slash.
-/
import LogicBoard.Proofs.Fallible
import LogicBoard.Proofs.Store.Path
import LogicBoard.Proofs.Table
import LogicBoard.Store.Disk

namespace LogicBoard.Disk

variable {d d' : Disk}

/-! ## §1. Entries. -/

theorem entryAt?_put {p : Place} (hp : p ≠ []) (e : Entry) (q : Place) :
    (d.put p e).entryAt? q = if p = q then some e else d.entryAt? q := by
  unfold entryAt? put
  cases q with
  | nil =>
    rw [if_neg hp]
    rfl
  | cons name rest => exact Table.find?_insert d.entries p _ e

theorem entryAt?_erase {p : Place} (hp : p ≠ []) (q : Place) :
    ({ d with entries := d.entries.erase p } : Disk).entryAt? q
      = if p = q then none else d.entryAt? q := by
  unfold entryAt?
  cases q with
  | nil =>
    rw [if_neg hp]
    rfl
  | cons name rest => exact Table.find?_erase d.entries p _

/-! ## §2. Following paths. -/

/-- The place where parts lead from another place. -/
def follow (d : Disk) (p : Place) (parts : List String) : Except DiskError Place :=
  parts.foldlM d.step p

theorem locate_ok_iff {path : String} {q : Place} : d.locate path = .ok q ↔
    checkPath path = .ok () ∧ d.follow (d.origin path) (Path.parts path) = .ok q := by
  unfold locate follow
  rw [Fallible.bind_ok_iff]
  constructor
  · rintro ⟨⟨⟩, hcheck, hfollow⟩
    exact ⟨hcheck, hfollow⟩
  · rintro ⟨hcheck, hfollow⟩
    exact ⟨(), hcheck, hfollow⟩

theorem folder_of_step {p q : Place} {part : String} (h : d.step p part = .ok q) :
    d.entryAt? p = some .folder := by
  unfold step at h
  split at h
  · exact absurd h (by simp)
  · assumption
  · exact absurd h (by simp)

/-- A step out of a directory. -/
theorem step_eq {p : Place} (h : d.entryAt? p = some .folder) (part : String) :
    d.step p part = if part = ".." then .ok p.dropLast
      else if longestName < part.utf8ByteSize then .error .longName else .ok (p ++ [part]) := by
  unfold step
  rw [h]

/-- A way that leads to a directory begins at one. -/
theorem folder_of_follow {p q : Place} {parts : List String} (h : d.follow p parts = .ok q)
    (hq : d.entryAt? q = some .folder) : d.entryAt? p = some .folder := by
  cases parts with
  | nil =>
    obtain rfl : p = q := Except.ok.inj h
    exact hq
  | cons part rest =>
    unfold follow at h
    rw [List.foldlM_cons, Fallible.bind_ok_iff] at h
    obtain ⟨p', hstep, -⟩ := h
    exact folder_of_step hstep

theorem follow_append {p r : Place} {parts : List String} {part : String} :
    d.follow p (parts ++ [part]) = .ok r ↔ ∃ q, d.follow p parts = .ok q ∧ d.step q part = .ok r := by
  unfold follow
  rw [List.foldlM_append, Fallible.bind_ok_iff]
  simp only [List.foldlM_cons, List.foldlM_nil, bind_pure]

/-- A way that goes on leads through directories. -/
theorem folders_of_follow {p q : Place} {parts : List String} {first part : String}
    {rest : List String} (hfirst : first ≠ "..")
    (h : d.follow p (parts ++ first :: part :: rest) = .ok q) :
    ∃ r, d.follow p parts = .ok r ∧ d.entryAt? r = some .folder ∧
      d.entryAt? (r ++ [first]) = some .folder := by
  unfold follow at h
  simp only [List.foldlM_append, List.foldlM_cons, Fallible.bind_ok_iff] at h
  obtain ⟨r, hr, r', hstep, r'', hstep', -⟩ := h
  have hfolder := folder_of_step hstep
  rw [step_eq hfolder, if_neg hfirst] at hstep
  split at hstep
  · exact absurd hstep (by simp)
  · obtain rfl := Except.ok.inj hstep
    exact ⟨r, hr, hfolder, folder_of_step hstep'⟩

/-- All directories of a disk are directories of another one. -/
def Keeps (d d' : Disk) : Prop :=
  ∀ p, d.entryAt? p = some .folder → d'.entryAt? p = some .folder

/-- A path leads to the same place if no directory is lost. -/
theorem follow_of_keeps (hkeeps : d.Keeps d') {p q : Place} {parts : List String}
    (h : d.follow p parts = .ok q) : d'.follow p parts = .ok q := by
  induction parts generalizing p with
  | nil => exact h
  | cons part rest ih =>
    unfold follow at h ⊢
    rw [List.foldlM_cons, Fallible.bind_ok_iff] at h ⊢
    obtain ⟨p', hstep, hrest⟩ := h
    have hfolder := folder_of_step hstep
    refine ⟨p', ?_, ih hrest⟩
    rw [step_eq (hkeeps p hfolder), ← step_eq hfolder]
    exact hstep

theorem keeps_put {p : Place} (hp : p ≠ []) (h : d.entryAt? p ≠ some .folder) (e : Entry) :
    d.Keeps (d.put p e) := by
  intro q hq
  rw [entryAt?_put hp, if_neg]
  · exact hq
  · rintro rfl
    exact h hq

theorem keeps_erase {p : Place} (hp : p ≠ []) (h : d.entryAt? p ≠ some .folder) :
    d.Keeps { d with entries := d.entries.erase p } := by
  intro q hq
  rw [entryAt?_erase hp, if_neg]
  · exact hq
  · rintro rfl
    exact h hq

/-- Directories that are there are not made again. -/
theorem makeFoldersFrom_eq {p q : Place} {parts : List String} (h : d.follow p parts = .ok q)
    (hq : d.entryAt? q = some .folder) : d.makeFoldersFrom p parts = (.ok (), d) := by
  induction parts generalizing p with
  | nil => rfl
  | cons part rest ih =>
    unfold follow at h
    rw [List.foldlM_cons, Fallible.bind_ok_iff] at h
    obtain ⟨p', hstep, hrest⟩ := h
    unfold makeFoldersFrom
    rw [hstep]
    dsimp only
    rw [folder_of_follow hrest hq]
    exact ih hrest

theorem makeFolders_eq {path : String} {q : Place} (h : d.locate path = .ok q)
    (hq : d.entryAt? q = some .folder) : d.makeFolders path = (.ok (), d) := by
  obtain ⟨hcheck, hfollow⟩ := locate_ok_iff.1 h
  unfold makeFolders
  split
  · rfl
  · rw [hcheck]
    exact makeFoldersFrom_eq hfollow hq

theorem Keeps.trans {d'' : Disk} (h : d.Keeps d') (h' : d'.Keeps d'') : d.Keeps d'' :=
  fun p hp => h' p (h p hp)

theorem ne_nil_of_entryAt? {p : Place} (h : d.entryAt? p ≠ some .folder) : p ≠ [] := by
  rintro rfl
  exact h rfl

/-- The disks differ at most in the place, and there is a directory by now. -/
structure Opens (d : Disk) (p : Place) (d' : Disk) : Prop where
  home : d'.home = d.home
  keeps : d.Keeps d'
  folder : d'.entryAt? p = some .folder
  elsewhere : ∀ q, q ≠ p → d'.entryAt? q = d.entryAt? q

/-- Making directories stops at once, or it goes on from the next directory. -/
theorem makeFoldersFrom_cases (d : Disk) (p : Place) (part : String) (rest : List String) :
    (∃ e, d.makeFoldersFrom p (part :: rest) = (.error e, d)) ∨
      ∃ q d', d.step p part = .ok q ∧ d.Opens q d' ∧
        d.makeFoldersFrom p (part :: rest) = d'.makeFoldersFrom q rest := by
  rw [makeFoldersFrom]
  cases hstep : d.step p part with
  | error e => exact Or.inl ⟨e, rfl⟩
  | ok q =>
    dsimp only
    cases hentry : d.entryAt? q with
    | none =>
      have hfree : d.entryAt? q ≠ some .folder := by simp [hentry]
      have hentries := entryAt?_put (d := d) (ne_nil_of_entryAt? hfree) .folder
      refine Or.inr ⟨q, d.put q .folder, rfl, ?_, rfl⟩
      refine ⟨rfl, keeps_put (ne_nil_of_entryAt? hfree) hfree _, ?_, fun r hr => ?_⟩
      · rw [hentries, if_pos rfl]
      · rw [hentries, if_neg (Ne.symm hr)]
    | some e =>
      cases e with
      | folder => exact Or.inr ⟨q, d, rfl, ⟨rfl, fun _ h => h, hentry, fun _ _ => rfl⟩, rfl⟩
      | text s => exact Or.inl ⟨_, rfl⟩
      | raw bytes => exact Or.inl ⟨_, rfl⟩

/-- Making directories loses none. -/
theorem keeps_makeFoldersFrom (d : Disk) (p : Place) (parts : List String) :
    d.Keeps (d.makeFoldersFrom p parts).2 := by
  induction parts generalizing d p with
  | nil => exact fun _ h => h
  | cons part rest ih =>
    rcases d.makeFoldersFrom_cases p part rest with ⟨e, heq⟩ | ⟨q, d', -, hopens, heq⟩
    · rw [heq]
      exact fun _ h => h
    · rw [heq]
      exact hopens.keeps.trans (ih d' q)

theorem home_makeFoldersFrom (d : Disk) (p : Place) (parts : List String) :
    (d.makeFoldersFrom p parts).2.home = d.home := by
  induction parts generalizing d p with
  | nil => rfl
  | cons part rest ih =>
    rcases d.makeFoldersFrom_cases p part rest with ⟨e, heq⟩ | ⟨q, d', -, hopens, heq⟩
    · rw [heq]
    · rw [heq, ih, hopens.home]

/-- Directories that were made, as far as that went, are not made again. -/
theorem makeFoldersFrom_again (d : Disk) (p : Place) (parts : List String) :
    (d.makeFoldersFrom p parts).2.makeFoldersFrom p parts = d.makeFoldersFrom p parts := by
  induction parts generalizing d p with
  | nil => rfl
  | cons part rest ih =>
    rcases d.makeFoldersFrom_cases p part rest with ⟨e, heq⟩ | ⟨q, d', hstep, hopens, heq⟩
    · rw [heq]
      exact heq
    · -- What was there on the way is there later on, too, so the way is the same.
      have hlater := keeps_makeFoldersFrom d' q rest
      have hp := folder_of_step hstep
      have hagain : (d'.makeFoldersFrom q rest).2.step p part = .ok q := by
        rw [step_eq (hlater p (hopens.keeps p hp)), ← step_eq hp, hstep]
      rw [heq, makeFoldersFrom, hagain]
      dsimp only
      rw [hlater q hopens.folder]
      exact ih d' q

theorem makeFolders_again (d : Disk) (path : String) :
    (d.makeFolders path).2.makeFolders path = d.makeFolders path := by
  unfold makeFolders
  split
  · rfl
  · cases checkPath path with
    | error e => rfl
    | ok =>
      have horigin : (d.makeFoldersFrom (d.origin path) (Path.parts path)).2.origin path
          = d.origin path := by
        unfold origin
        rw [home_makeFoldersFrom]
      dsimp only
      rw [horigin, makeFoldersFrom_again]

/-! ## §3. Operations. -/

/-- What reading gives at the place where a path leads. -/
theorem readText_eq {path : String} (hpath : Path.isFolderLike path = false) :
    d.readText path = d.locate path >>= fun q =>
      match d.entryAt? q with
      | none => .error .notFound
      | some .folder => .error .isFolder
      | some (.text s) => .ok s
      | some (.raw _) => .error .notText := by
  unfold readText find
  cases d.locate path with
  | error e => rfl
  | ok q =>
    simp only [Fallible.ok_bind]
    cases d.entryAt? q with
    | none => rfl
    | some e =>
      cases e with
      | folder => rfl
      | text s =>
        dsimp only
        rw [hpath]
        rfl
      | raw bytes =>
        dsimp only
        rw [hpath]
        rfl

theorem readText_ok_iff {path s : String} (hpath : Path.isFolderLike path = false) :
    d.readText path = .ok s ↔ ∃ q, d.locate path = .ok q ∧ d.entryAt? q = some (.text s) := by
  rw [readText_eq hpath, Fallible.bind_ok_iff]
  refine exists_congr fun q => and_congr_right fun _ => ?_
  cases d.entryAt? q with
  | none => simp
  | some e => cases e <;> simp

/-- A file is written where there is no directory. -/
theorem write_ok {path : String} {e : Entry} (h : d.write path e = .ok d') :
    ∃ q, d.locate path = .ok q ∧ d.entryAt? q ≠ some .folder ∧ d' = d.put q e := by
  unfold write at h
  obtain ⟨q, hlocate, hput⟩ := Fallible.bind_ok_iff.1 h
  refine ⟨q, hlocate, ?_⟩
  split at hput
  · exact absurd hput (by simp)
  · rename_i hnot hentry
    split at hput
    · exact absurd hput (by simp)
    · refine ⟨fun hfolder => ?_, (Except.ok.inj hput).symm⟩
      rw [hentry] at hfolder
      exact hnot (Option.some.inj hfolder)
  · rename_i hentry
    split at hput
    · exact absurd hput (by simp)
    · exact ⟨by simp [hentry], (Except.ok.inj hput).symm⟩

/-- A file is deleted where it is. -/
theorem remove_ok {path : String} (h : d.remove path = .ok d') :
    ∃ q, d.locate path = .ok q ∧ d.entryAt? q ≠ some .folder ∧
      d' = { d with entries := d.entries.erase q } := by
  unfold remove at h
  obtain ⟨⟨q, e⟩, hfind, herase⟩ := Fallible.bind_ok_iff.1 h
  unfold find at hfind
  obtain ⟨q', hlocate, hentry⟩ := Fallible.bind_ok_iff.1 hfind
  split at hentry
  · exact absurd hentry (by simp)
  · obtain ⟨rfl, rfl⟩ := Prod.mk.inj (Except.ok.inj hentry)
    exact absurd herase (by simp)
  · rename_i found hnot hsome
    split at hentry
    · exact absurd hentry (by simp)
    · obtain ⟨rfl, rfl⟩ := Prod.mk.inj (Except.ok.inj hentry)
      refine ⟨q', hlocate, fun hfolder => ?_, ?_⟩
      · rw [hsome] at hfolder
        exact hnot (Option.some.inj hfolder)
      · split at herase
        · exact absurd herase (by simp)
        · rename_i heq
          obtain ⟨rfl, rfl⟩ := Prod.mk.inj heq
          exact (Except.ok.inj herase).symm

/-- Where there is nothing to delete, there is nothing to read. -/
theorem readText_of_remove {path : String} (h : d.remove path = .error .notFound) :
    d.readText path = .error .notFound := by
  have hfind : d.find path = .error .notFound := by
    unfold remove at h
    rcases Fallible.bind_error_iff.1 h with hfind | ⟨⟨q, e⟩, -, herase⟩
    · exact hfind
    · split at herase
      · exact absurd herase (by simp)
      · exact absurd herase (by simp)
  unfold readText
  rw [hfind]
  rfl

theorem nameIn?_eq_some_iff {p q : Place} {name : String} :
    nameIn? p q = some name ↔ q = p ++ [name] := by
  unfold nameIn?
  constructor
  · intro h
    split at h
    · rename_i hdrop
      rw [← hdrop]
      exact (List.dropLast_append_getLast? name h).symm
    · exact absurd h (by simp)
  · rintro rfl
    rw [List.dropLast_concat, if_pos rfl, List.getLast?_concat]

/-- A directory is listed by what is right inside it. -/
theorem list_ok {path : String} {names : List String} (h : d.list path = .ok names) :
    ∃ p, d.locate path = .ok p ∧ d.entryAt? p = some .folder ∧
      ∀ name, name ∈ names ↔ ∃ e, d.entryAt? (p ++ [name]) = some e := by
  unfold list at h
  obtain ⟨⟨p, e⟩, hfind, hnames⟩ := Fallible.bind_ok_iff.1 h
  unfold find at hfind
  obtain ⟨q, hlocate, hentry⟩ := Fallible.bind_ok_iff.1 hfind
  have hmem : ∀ name, name ∈ d.entries.keys.filterMap (nameIn? q)
      ↔ ∃ e, d.entryAt? (q ++ [name]) = some e := by
    intro name
    have hat : d.entryAt? (q ++ [name]) = d.entries.find? (q ++ [name]) := by
      unfold entryAt?
      rw [if_neg (by simp)]
    rw [hat, ← Table.mem_keys_iff, List.mem_filterMap]
    simp only [nameIn?_eq_some_iff]
    simp
  split at hentry
  · exact absurd hentry (by simp)
  · rename_i hfolder
    obtain ⟨rfl, rfl⟩ := Prod.mk.inj (Except.ok.inj hentry)
    obtain rfl := Except.ok.inj hnames
    exact ⟨q, hlocate, hfolder, hmem⟩
  · rename_i found hnot hsome
    split at hentry
    · exact absurd hentry (by simp)
    · obtain ⟨rfl, rfl⟩ := Prod.mk.inj (Except.ok.inj hentry)
      split at hnames
      · rename_i heq
        exact absurd (Prod.mk.inj heq).2 hnot
      · exact absurd hnames (by simp)

/-- What cannot be found is no directory. -/
theorem list_notFound {path : String} (h : d.list path = .error .notFound) {p : Place}
    (hp : d.locate path = .ok p) : d.entryAt? p ≠ some .folder := by
  intro hfolder
  have hlist : d.list path = .ok (d.entries.keys.filterMap (nameIn? p)) := by
    unfold list find
    rw [hp]
    simp only [Fallible.ok_bind, hfolder]
  rw [hlist] at h
  exact absurd h (by simp)

/-! ## §4. Names. -/

/-- No name on the way to the place has a slash in it. -/
def IsPlainPlace (p : Place) : Prop := ∀ name ∈ p, '/' ∉ name.toList

/-- No name on the disk has a slash in it. -/
structure IsPlain (d : Disk) : Prop where
  home : IsPlainPlace d.home
  entries : ∀ p e, d.entryAt? p = some e → IsPlainPlace p

theorem isPlain_ofHome {home : Place} (h : IsPlainPlace home) : (ofHome home).IsPlain := by
  refine ⟨h, fun p e hentry => ?_⟩
  unfold entryAt? at hentry
  split at hentry
  · rename_i hroot
    rw [List.isEmpty_iff.1 hroot]
    exact fun name hname => absurd hname List.not_mem_nil
  · obtain ⟨rfl, -⟩ := Prod.mk.inj (List.mem_singleton.1 (Table.find?_eq_some_iff.1 hentry))
    exact h

theorem IsPlain.put (h : d.IsPlain) {p : Place} (hp : IsPlainPlace p)
    (hfree : d.entryAt? p ≠ some .folder) (e : Entry) : (d.put p e).IsPlain := by
  refine ⟨h.home, fun q f hq => ?_⟩
  rw [entryAt?_put (ne_nil_of_entryAt? hfree)] at hq
  split at hq
  · rename_i heq
    exact heq ▸ hp
  · exact h.entries q f hq

theorem IsPlain.erase (h : d.IsPlain) {p : Place} (hfree : d.entryAt? p ≠ some .folder) :
    IsPlain { d with entries := d.entries.erase p } := by
  refine ⟨h.home, fun q f hq => ?_⟩
  rw [entryAt?_erase (ne_nil_of_entryAt? hfree)] at hq
  split at hq
  · exact absurd hq (by simp)
  · exact h.entries q f hq

theorem isPlainPlace_of_step {p q : Place} {part : String} (hp : IsPlainPlace p)
    (hpart : '/' ∉ part.toList) (h : d.step p part = .ok q) : IsPlainPlace q := by
  rw [step_eq (folder_of_step h)] at h
  split at h
  · obtain rfl := Except.ok.inj h
    exact fun name hname => hp name ((List.dropLast_sublist p).subset hname)
  · split at h
    · exact absurd h (by simp)
    · obtain rfl := Except.ok.inj h
      intro name hname
      rcases List.mem_append.1 hname with hname | hname
      · exact hp name hname
      · exact List.mem_singleton.1 hname ▸ hpart

theorem isPlainPlace_of_follow {p q : Place} {parts : List String} (hp : IsPlainPlace p)
    (hparts : IsPlainPlace parts) (h : d.follow p parts = .ok q) : IsPlainPlace q := by
  induction parts generalizing p with
  | nil => exact Except.ok.inj h ▸ hp
  | cons part rest ih =>
    obtain ⟨hpart, hrest⟩ := List.forall_mem_cons.1 hparts
    unfold follow at h
    rw [List.foldlM_cons, Fallible.bind_ok_iff] at h
    obtain ⟨r, hstep, hfollow⟩ := h
    exact ih (isPlainPlace_of_step hp hpart hstep) hrest hfollow

theorem isPlainPlace_parts (path : String) : IsPlainPlace (Path.parts path) :=
  fun _ => Path.not_mem_of_mem_parts

theorem IsPlain.origin (h : d.IsPlain) (path : String) : IsPlainPlace (d.origin path) := by
  unfold Disk.origin
  split
  · exact fun name hname => absurd hname List.not_mem_nil
  · exact h.home

/-- A path leads to places without slashes in their names. -/
theorem IsPlain.locate (h : d.IsPlain) {path : String} {q : Place} (hq : d.locate path = .ok q) :
    IsPlainPlace q :=
  isPlainPlace_of_follow (h.origin path) (isPlainPlace_parts path) (locate_ok_iff.1 hq).2

theorem IsPlain.write (h : d.IsPlain) {path : String} {e : Entry} (hd : d.write path e = .ok d') :
    d'.IsPlain := by
  obtain ⟨q, hq, hfree, rfl⟩ := write_ok hd
  exact h.put (h.locate hq) hfree e

theorem IsPlain.remove (h : d.IsPlain) {path : String} (hd : d.remove path = .ok d') :
    d'.IsPlain := by
  obtain ⟨q, -, hfree, rfl⟩ := remove_ok hd
  exact h.erase hfree

theorem IsPlain.makeFoldersFrom (h : d.IsPlain) {p : Place} {parts : List String}
    (hp : IsPlainPlace p) (hparts : IsPlainPlace parts) : (d.makeFoldersFrom p parts).2.IsPlain := by
  induction parts generalizing d p with
  | nil => exact h
  | cons part rest ih =>
    obtain ⟨hpart, hrest⟩ := List.forall_mem_cons.1 hparts
    rcases d.makeFoldersFrom_cases p part rest with ⟨e, heq⟩ | ⟨q, d', hstep, hopens, heq⟩
    · rw [heq]
      exact h
    · have hq := isPlainPlace_of_step hp hpart hstep
      rw [heq]
      refine ih ⟨hopens.home ▸ h.home, fun r e hr => ?_⟩ hq hrest
      by_cases hrq : r = q
      · exact hrq ▸ hq
      · exact h.entries r e (hopens.elsewhere r hrq ▸ hr)

theorem IsPlain.makeFolders (h : d.IsPlain) (path : String) : (d.makeFolders path).2.IsPlain := by
  unfold Disk.makeFolders
  split
  · exact h
  · cases checkPath path with
    | error e => exact h
    | ok => exact h.makeFoldersFrom (h.origin path) (isPlainPlace_parts path)

/-- The names in a directory have no slashes in them. -/
theorem IsPlain.list (h : d.IsPlain) {path : String} {names : List String}
    (hlist : d.list path = .ok names) : IsPlainPlace names := by
  obtain ⟨p, -, -, hmem⟩ := list_ok hlist
  intro name hname
  obtain ⟨e, hentry⟩ := (hmem name).1 hname
  exact h.entries _ e hentry name (by simp)

end LogicBoard.Disk
