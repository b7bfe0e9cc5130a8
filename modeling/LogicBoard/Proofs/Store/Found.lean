/-
  LogicBoard.Proofs.Store.Found
  ────────────────────────────────
  **WHAT IS SAVED IS FOUND AGAIN.**

  A type is saved under the path of its file, but it is found by a look
  through the directory.  The two meet if the path leads right into the
  directory and the file's name tells the type.  Nothing of this is asked for
  when a type is saved, so a record may come to lie where no look through the
  directory finds it.

  Main statements:
    • `Sound.finds` — a type with a record is found,
    • `finds_iff` — which types are found again after they were saved.
-/
import LogicBoard.Proofs.Store.Untouched

namespace LogicBoard.DirectoryStore

open TypeStore

variable {s : DirectoryStore} {name : Name} {records : Table Name String}

/-! ## §1. Looking through a directory. -/

/-- Of all types, just one is loaded under the name, and it is the one that is loaded by itself. -/
def Finds (s : DirectoryStore) (name : Name) (t : ChipType) : Prop :=
  ∃ types, s.loadAll.1 = .ok types ∧ types.filter (·.1 = name) = [(name, t)] ∧
    (s.load name).1 = .ok (some t)

/-- A system call that takes a path takes what the path begins with. -/
theorem checkPath_of_append {front back : String} (hfront : front ≠ "")
    (h : Disk.checkPath (front ++ back) = .ok ()) : Disk.checkPath front = .ok () := by
  unfold Disk.checkPath at h ⊢
  rw [String.toList_append, String.utf8ByteSize_append] at h
  rw [if_neg (by simpa using hfront)]
  split at h
  · exact absurd h (by simp)
  split at h
  · exact absurd h (by simp)
  split at h
  · exact absurd h (by simp)
  rename_i hbad hlong
  rw [List.contains_iff_mem, List.mem_append, not_or] at hbad
  rw [if_neg (by simpa using hbad.1), if_neg (by omega)]

theorem exists_join_eq_append {dir file : String} (hdir : dir ≠ "") (hfile : '/' ∉ file.toList) :
    ∃ back, Path.join dir file = dir ++ back := by
  unfold Path.join
  rw [Path.isAbsolute_eq_false hfile, show dir.isEmpty = false by simpa using hdir]
  simp only [Bool.or_self, Bool.false_eq_true, if_false]
  split
  · exact ⟨file, rfl⟩
  · exact ⟨"/" ++ file, String.append_assoc⟩

theorem readText_of_onDisk {text : String} (h : s.onDisk name = some text) :
    s.disk.readText (s.pathOf name) = .ok text :=
  toOption_eq_some_iff.1 h

theorem read_of_readText {path text : String} (h : s.disk.readText path = .ok text) :
    s.read path = .ok (some text) := by
  unfold DirectoryStore.read
  rw [h]

/-- A directory with a record in it can be listed. -/
theorem Holds.list (h : s.Holds records) {text : String} (htext : records.find? name = some text) :
    ∃ p, s.IsAt p ∧ s.disk.list s.dir = .ok (s.disk.entries.keys.filterMap (Disk.nameIn? p)) := by
  have hrecord := h.named name text htext
  have hsome := (h.onDisk name hrecord).trans htext
  obtain ⟨⟨hcheck, -⟩, p, hp, -⟩ := (onDisk_eq_some_iff h.dir hrecord).1 hsome
  obtain ⟨back, hback⟩ := exists_join_eq_append h.dir (isFile_fileOf hrecord).slash
  have hdir : Disk.checkPath s.dir = .ok () := by
    refine checkPath_of_append h.dir (?_ : Disk.checkPath (s.dir ++ back) = .ok ())
    rw [← hback]
    exact hcheck
  refine ⟨p, hp, ?_⟩
  unfold Disk.list Disk.find
  rw [Disk.locate_ok_iff.2 ⟨hdir, hp.leads⟩]
  simp only [Fallible.ok_bind, hp.folder]

/-- A look through a directory with a record in it does not fail. -/
theorem Holds.scan_isOk (h : s.Holds records) {text : String}
    (htext : records.find? name = some text) : ¬ IsDiskError s.scan := by
  obtain ⟨p, hp, hlist⟩ := h.list htext
  obtain ⟨q, hlocate, hfolder, hmem⟩ := Disk.list_ok hlist
  obtain rfl := hp.unique ⟨(Disk.locate_ok_iff.1 hlocate).2, hfolder⟩
  unfold DirectoryStore.scan
  rw [hlist]
  dsimp only
  have hstep : ∀ file ∈ s.disk.entries.keys.filterMap (Disk.nameIn? p), ∀ found, True →
      ∃ after, s.scanFile found file = .ok after ∧ True := by
    intro file hfile found _
    unfold scanFile
    cases htold : s.nameOf? file with
    | none => exact ⟨found, rfl, trivial⟩
    | some type =>
      obtain ⟨e, hentry⟩ := (hmem file).1 hfile
      -- What looks like a record is one, and so it can be read.
      obtain ⟨rfl, -, record, hdisk⟩ := h.kept.owns hp file type e htold hentry
      have hread : s.read (Path.join s.dir (s.fileOf type)) = .ok (some record) :=
        read_of_readText (readText_of_onDisk hdisk)
      refine ⟨found.insert type (Path.join s.dir (s.fileOf type), record), ?_, trivial⟩
      dsimp only
      rw [hread]
      rfl
  obtain ⟨after, hrun, -⟩ := Fallible.foldlM_isOk hstep (s := .empty) trivial
  rw [hrun]
  rintro ⟨path, e, herror⟩
  exact absurd herror (by simp)

/-- **A type with a record is found.** -/
theorem Sound.finds (h : s.Sound records) {text : String} (htext : records.find? name = some text) :
    s.Finds name (told text) := by
  have hrecord := h.holds.named name text htext
  have hload := h.holds.loadAll h.tells (h.holds.scan_isOk htext)
  refine ⟨_, congrArg Prod.fst hload, ?_, ?_⟩
  · rw [List.filter_map]
    show (records.entries.filter (·.1 = name)).map _ = _
    rw [Table.filter_entries htext]
    rfl
  · have hread := read_of_readText (readText_of_onDisk ((h.holds.onDisk name hrecord).trans htext))
    refine congrArg Prod.fst (load_ok_iff.2 ⟨some text, hread, ?_, rfl⟩)
    dsimp only [definition?]
    rw [h.tells name text htext]
    rfl

/-- What is found is one definition. -/
theorem Finds.unique {t u : ChipType} (h : s.Finds name t) (h' : s.Finds name u) : t = u := by
  obtain ⟨-, -, -, ht⟩ := h
  obtain ⟨-, -, -, hu⟩ := h'
  exact Option.some.inj (Except.ok.inj (ht.symm.trans hu))

/-- On a disk without slashes in its names, what is found has a name that its file can tell. -/
theorem Finds.plain (hplain : s.disk.IsPlain) {t : ChipType} (h : s.Finds name t) :
    s.dir ≠ "" ∧ '/' ∉ s.stem.toList ∧ '/' ∉ name.text.toList ∧ name.text ≠ "" := by
  obtain ⟨types, hload, hfilter, -⟩ := h
  have hmem : (name, t) ∈ types.filter (·.1 = name) := hfilter ▸ List.mem_cons_self
  exact plain_of_loadAll hplain hload (List.mem_map_of_mem (List.mem_of_mem_filter hmem))

/-! ## §2. After saving. -/

/-- A type that was saved is found until it is saved again or removed, if its name is one that a
file in the directory can tell. -/
theorem Sound.finds_run (h : s.Sound records) {before after : List Request} {t : ChipType}
    (hname : name.IsFolded) (ht : t.IsStorable) (hplain : '/' ∉ name.text.toList)
    (hempty : name.text ≠ "") (hkeepable : ∀ request ∈ before ++ after, s.IsKeepable request)
    (hsaved : ((TypeStore.run s before).save name t).1 = .ok ())
    (hlast : ∀ request ∈ after, ¬ request.Replaces name) (seen : Table Name Digest) :
    Finds { TypeStore.run s (before ++ .save name t :: after) with seen } name t.reread := by
  obtain ⟨hbefore, hafter⟩ := List.forall_mem_append.1 hkeepable
  obtain ⟨disk, seen₁, records₁, hrun₁, hsound₁, -⟩ := h.run hbefore
  rw [hrun₁] at hsaved
  rcases hsound₁.save hname (fun hslash => absurd hslash hplain) ht with
    ⟨e, disk', hsave, -⟩ | ⟨disk', seen₂, hsave, hsound₂⟩
  · rw [hsave] at hsaved
    exact absurd hsaved (by simp)
  rw [if_neg hempty] at hsound₂
  have hkeepable' : ∀ request ∈ after, IsKeepable { s with disk := disk', seen := seen₂ } request :=
    fun request hrequest => hafter request hrequest
  obtain ⟨disk'', seen₃, records₃, hrun₃, hsound₃, hsame⟩ := hsound₂.run hkeepable'
  have hrun : TypeStore.run s (before ++ .save name t :: after)
      = { s with disk := disk'', seen := seen₃ } := by
    have hask : (TypeStore.ask { s with disk, seen := seen₁ } (.save name t)).2
        = { s with disk := disk', seen := seen₂ } := congrArg Prod.snd hsave
    rw [run_append, run_cons, hrun₁, hask]
    exact hrun₃
  have htext : records₃.find? name = some t.recordText := by
    rw [hsame name hlast, Table.find?_setTo, if_pos rfl]
  rw [hrun, ← told_recordText ht]
  exact (hsound₃.see seen).finds htext

/-- **In a directory that nobody else touches, a type that was saved is found by a look through the
directory until it is saved again or removed, just as it is loaded by itself, if and only if the
directory has a path at all, the stem and the type's name have no slash in them, and the name is not
empty.**  It does not matter what the store remembers, so a new store finds it as well.  Different
names without slashes never lead to one place. -/
theorem finds_iff {disk : Disk} {dir stem : String} {before after : List Request} {t : ChipType}
    (hplain : disk.IsPlain) (huntouched : IsUntouched (.ofDir (disk.makeFolders dir).2 dir stem))
    (hname : name.IsFolded) (ht : t.IsStorable)
    (hkeepable : ∀ request ∈ before ++ after, (ofDir disk dir stem).IsKeepable request)
    (hsaved : ((run (ofDir disk dir stem) before).save name t).1 = .ok ())
    (hlast : ∀ request ∈ after, ¬ request.Replaces name) :
    let s := run (ofDir disk dir stem) (before ++ .save name t :: after)
    (∀ seen u, Finds { s with seen } name u ↔
        (dir ≠ "" ∧ '/' ∉ stem.toList ∧ '/' ∉ name.text.toList ∧ name.text ≠ "") ∧
          u = t.reread) ∧
      ∀ other, '/' ∉ name.text.toList → '/' ∉ other.text.toList → other ≠ name → ∀ p,
        s.disk.locate (s.pathOf name) = .ok p → s.disk.locate (s.pathOf other) ≠ .ok p := by
  intro s
  have hfinds : dir ≠ "" ∧ '/' ∉ stem.toList ∧ '/' ∉ name.text.toList ∧ name.text ≠ "" →
      ∀ seen, Finds { s with seen } name t.reread := fun ⟨hdir, hstem, hslash, hempty⟩ =>
    (sound_empty (s := ofDir disk dir stem) hdir hstem huntouched).finds_run hname ht hslash hempty
      hkeepable hsaved hlast
  refine ⟨fun seen u => ⟨fun hu => ?_, ?_⟩, ?_⟩
  · obtain ⟨disk', seen', hrun, hplain'⟩ :=
      exists_plain_run (s := ofDir disk dir stem) hplain (before ++ .save name t :: after)
    have hcond : dir ≠ "" ∧ '/' ∉ stem.toList ∧ '/' ∉ name.text.toList ∧ name.text ≠ "" := by
      have hu' := hu
      rw [show s = _ from hrun] at hu'
      exact hu'.plain hplain'
    exact ⟨hcond, hu.unique (hfinds hcond seen)⟩
  · rintro ⟨hcond, rfl⟩
    exact hfinds hcond seen
  · intro other hslash hother hne p hp hp'
    exact hne (locate_injective hother hslash hp' hp)

/-- Other types are saved first.  One of them has no name; one has a slash in its name, and is not
saved. -/
def earlierErrands : List Request :=
  [.save ⟨"other"⟩ pairBlank, .save ⟨""⟩ pairBlank, .save ⟨"a/b"⟩ pairBlank, .remove ⟨"pair"⟩]

/-- Other types are saved and removed later on. -/
def laterErrands : List Request :=
  [.remove ⟨"other"⟩, .loadAll, .remove ⟨""⟩, .save ⟨"pairs"⟩ pairBlank, .changes, .load ⟨"ghost"⟩]

theorem finds_pair :
    (Disk.ofHome ["home"]).IsPlain ∧
    IsUntouched (.ofDir ((Disk.ofHome ["home"]).makeFolders "types").2 "types" "T_") ∧
    Name.IsFolded ⟨"pair"⟩ ∧ pairDraft.IsStorable ∧
    (∀ request ∈ earlierErrands ++ laterErrands, drawer.IsKeepable request) ∧
    ((run drawer earlierErrands).save ⟨"pair"⟩ pairDraft).1 = .ok () ∧
    (∀ request ∈ laterErrands, ¬ request.Replaces ⟨"pair"⟩) ∧
    Finds { run drawer (earlierErrands ++ .save ⟨"pair"⟩ pairDraft :: laterErrands) with
      seen := .empty } ⟨"pair"⟩ pairDraft.reread := by
  have hplain : (Disk.ofHome ["home"]).IsPlain :=
    Disk.isPlain_ofHome (List.forall_mem_singleton.2 (by decide))
  have huntouched :
      IsUntouched (.ofDir ((Disk.ofHome ["home"]).makeFolders "types").2 "types" "T_") :=
    isUntouched_of_isAt (p := ["home", "types"]) ⟨rfl, rfl⟩ fun _ _ => rfl
  have hfolded : ∀ text : String, Text.lower text = text → Name.IsFolded ⟨text⟩ :=
    fun text htext => ⟨text, congrArg Name.mk htext⟩
  have hpair : Name.IsFolded ⟨"pair"⟩ := hfolded "pair" (by decide +kernel)
  have hinside : ∀ name, drawer.StaysInside name := fun _ _ => by decide
  have hkeepable : ∀ request ∈ earlierErrands ++ laterErrands, drawer.IsKeepable request := by
    simp only [earlierErrands, laterErrands, List.cons_append, List.nil_append,
      List.forall_mem_cons]
    have hother := hfolded "other" (by decide +kernel)
    have hnone := hfolded "" (by decide +kernel)
    exact ⟨⟨⟨hother, isStorable_pairBlank⟩, hinside _⟩, ⟨⟨hnone, isStorable_pairBlank⟩, hinside _⟩,
      ⟨⟨hfolded "a/b" (by decide +kernel), isStorable_pairBlank⟩, hinside _⟩, ⟨hpair, hinside _⟩,
      ⟨hother, hinside _⟩, trivial, ⟨hnone, hinside _⟩,
      ⟨⟨hfolded "pairs" (by decide +kernel), isStorable_pairBlank⟩, hinside _⟩, trivial, trivial,
      fun request h => absurd h List.not_mem_nil⟩
  have hsaved : ((run drawer earlierErrands).save ⟨"pair"⟩ pairDraft).1 = .ok () := by
    decide +kernel
  have hlast : ∀ request ∈ laterErrands, ¬ request.Replaces ⟨"pair"⟩ := by
    simp [laterErrands, Request.Replaces]
  obtain ⟨hfinds, -⟩ :=
    finds_iff hplain huntouched hpair isStorable_pairDraft hkeepable hsaved hlast
  exact ⟨hplain, huntouched, hpair, isStorable_pairDraft, hkeepable, hsaved, hlast,
    (hfinds .empty _).2 ⟨⟨by decide, by decide, by decide, by decide⟩, rfl⟩⟩

/-- A type without a name is saved, and it can be loaded by itself.  But no look through the
directory finds it, and to the store its record looks like one that somebody else made. -/
theorem not_finds_unnamed :
    (drawer.save ⟨""⟩ pairBlank).1 = .ok () ∧
      ((drawer.save ⟨""⟩ pairBlank).2.load ⟨""⟩).1 = .ok (some pairBlank) ∧
      (drawer.save ⟨""⟩ pairBlank).2.loadAll.1 = .ok [] ∧
      (drawer.save ⟨""⟩ pairBlank).2.changes = .ok [⟨""⟩] := by
  decide +kernel

end LogicBoard.DirectoryStore
