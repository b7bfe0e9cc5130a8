/-
  LogicBoard.Proofs.Store.Path
  ────────────────────────────────
  **THE PARTS OF A PATH.**

  The path of a file in a directory has the parts of the directory's path and
  then the file.  This takes a file that is a single part, without a slash in
  it, and a directory with a path at all: from the empty path nothing leads on.

  Main statements: `parts_join`, `fileName_of_toList`, `isAbsolute_join`,
  `exists_parts_append`.
-/
import LogicBoard.Store.Path

namespace LogicBoard.Path

/-! ## §1. Splitting. -/

theorem split_ne_nil (cs : List Char) : split cs ≠ [] := by
  cases cs with
  | nil => simp [split]
  | cons c rest =>
    unfold split
    split
    · simp
    · split <;> simp

theorem split_append_slash (cs ds : List Char) :
    split (cs ++ '/' :: ds) = split cs ++ split ds := by
  induction cs with
  | nil => simp [split]
  | cons c rest ih =>
    simp only [List.cons_append, split, ih]
    split
    · rfl
    · cases hrest : split rest with
      | nil => exact absurd hrest (split_ne_nil rest)
      | cons part parts => rfl

theorem split_of_not_mem {cs : List Char} (h : '/' ∉ cs) : split cs = [cs] := by
  induction cs with
  | nil => rfl
  | cons c rest ih =>
    rw [List.mem_cons, not_or] at h
    unfold split
    rw [if_neg (Ne.symm h.1), ih h.2]

theorem not_mem_of_mem_split {cs part : List Char} (h : part ∈ split cs) : '/' ∉ part := by
  induction cs generalizing part with
  | nil =>
    obtain rfl : part = [] := by simpa [split] using h
    simp
  | cons c rest ih =>
    unfold split at h
    split at h
    · rcases List.mem_cons.1 h with rfl | h
      · simp
      · exact ih h
    · rename_i hc
      split at h
      · rename_i hrest
        exact absurd hrest (split_ne_nil rest)
      · rename_i first others hrest
        rcases List.mem_cons.1 h with rfl | h
        · rw [List.mem_cons, not_or]
          exact ⟨Ne.symm hc, ih (hrest ▸ List.mem_cons_self)⟩
        · exact ih (hrest ▸ List.mem_cons_of_mem _ h)

/-! ## §2. The last part. -/

/-- The text is a single part and not the way back. -/
structure IsFile (file : String) : Prop where
  slash : '/' ∉ file.toList
  empty : file ≠ ""
  dot : file ≠ "."
  dots : file ≠ ".."

theorem IsFile.isPart {file : String} (h : IsFile file) : isPart file = true := by
  unfold Path.isPart
  simp [h.empty, h.dot]

theorem IsFile.parts_eq {file : String} (h : IsFile file) : parts file = [file] := by
  unfold parts
  rw [split_of_not_mem h.slash]
  simp [h.isPart]

/-- The parts on both sides of a slash. -/
theorem parts_append_slash {path : String} {front back : List Char}
    (h : path.toList = front ++ '/' :: back) :
    parts path = parts (String.ofList front) ++ parts (String.ofList back) := by
  unfold parts
  rw [h, split_append_slash, String.toList_ofList, String.toList_ofList, List.map_append,
    List.filter_append]

/-- What follows the last slash is the last part. -/
theorem parts_of_toList {path file : String} (h : IsFile file) {front : List Char}
    (hpath : path.toList = front ++ '/' :: file.toList) :
    parts path = parts (String.ofList front) ++ [file] := by
  rw [parts_append_slash hpath, String.ofList_toList, h.parts_eq]

theorem fileName_of_toList {path file : String} (h : IsFile file) {front : List Char}
    (hpath : path.toList = front ++ '/' :: file.toList) : fileName path = file := by
  unfold fileName
  rw [parts_of_toList h hpath, List.getLast?_concat]
  split
  · rename_i hnone
    exact absurd hnone (by simp)
  · rename_i hdots
    exact absurd (Option.some.inj hdots) h.dots
  · rename_i part hpart
    exact (Option.some.inj hpart).symm

theorem isFolderLike_of_toList {path file : String} (h : IsFile file) {front : List Char}
    (hpath : path.toList = front ++ '/' :: file.toList) : isFolderLike path = false := by
  unfold isFolderLike
  rw [hpath, split_append_slash, split_of_not_mem h.slash, List.getLast?_concat]
  split
  · rename_i hempty
    exact absurd (String.toList_inj.1 (Option.some.inj hempty)) h.empty
  · rename_i hdot
    exact absurd (String.toList_inj.1 (Option.some.inj hdot)) h.dot
  · rfl

theorem not_mem_of_mem_parts {path part : String} (h : part ∈ parts path) : '/' ∉ part.toList := by
  obtain ⟨hmem, -⟩ := List.mem_filter.1 h
  obtain ⟨cs, hcs, rfl⟩ := List.mem_map.1 hmem
  rw [String.toList_ofList]
  exact not_mem_of_mem_split hcs

theorem not_mem_fileName (path : String) : '/' ∉ (fileName path).toList := by
  unfold fileName
  split
  · simp
  · simp
  · rename_i part hpart
    exact not_mem_of_mem_parts (List.mem_of_getLast? hpart)

/-! ## §3. Files in a directory. -/

theorem isAbsolute_eq_false {file : String} (h : '/' ∉ file.toList) : isAbsolute file = false := by
  unfold isAbsolute
  cases hfile : file.toList with
  | nil => rfl
  | cons c rest =>
    rw [hfile, List.mem_cons, not_or] at h
    simp [Ne.symm h.1]

/-- The path of what is in a directory ends with it, and a slash stands before it. -/
theorem exists_join_of_relative {dir file : String} (hdir : dir ≠ "")
    (hfile : isAbsolute file = false) :
    ∃ front, (join dir file).toList = front ++ '/' :: file.toList ∧
      (dir.toList = front ∨ dir.toList = front ++ ['/']) := by
  have hempty : dir.isEmpty = false := by simpa using hdir
  unfold join
  rw [hfile, hempty]
  simp only [Bool.or_false, Bool.false_eq_true, if_false]
  split
  · rename_i hlast
    obtain ⟨front, hfront⟩ := List.getLast?_eq_some_iff.1 hlast
    exact ⟨front, by simp [hfront], Or.inr hfront⟩
  · exact ⟨dir.toList, by simp, Or.inl rfl⟩

theorem exists_join {dir file : String} (hdir : dir ≠ "") (hfile : '/' ∉ file.toList) :
    ∃ front, (join dir file).toList = front ++ '/' :: file.toList ∧
      (dir.toList = front ∨ dir.toList = front ++ ['/']) :=
  exists_join_of_relative hdir (isAbsolute_eq_false hfile)

/-- A slash at its end makes no difference to the parts of a path. -/
theorem parts_eq_of_toList {dir : String} {front : List Char}
    (h : dir.toList = front ∨ dir.toList = front ++ ['/']) :
    parts dir = parts (String.ofList front) := by
  rcases h with rfl | h
  · rw [String.ofList_toList]
  · rw [parts_append_slash h]
    exact List.append_nil _

theorem parts_join {dir file : String} (hdir : dir ≠ "") (hfile : IsFile file) :
    parts (join dir file) = parts dir ++ [file] := by
  obtain ⟨front, hjoin, hfront⟩ := exists_join hdir hfile.slash
  rw [parts_of_toList hfile hjoin, parts_eq_of_toList hfront]

theorem isAbsolute_join {dir file : String} (hdir : dir ≠ "") (hfile : isAbsolute file = false) :
    isAbsolute (join dir file) = isAbsolute dir := by
  obtain ⟨front, hjoin, hfront⟩ := exists_join_of_relative hdir hfile
  unfold isAbsolute
  rw [hjoin]
  rcases hfront with rfl | hfront
  · cases hcs : dir.toList with
    | nil => exact absurd (String.toList_eq_nil_iff.1 hcs) hdir
    | cons c rest => rfl
  · rw [hfront]
    cases front <;> rfl

/-- Whatever the file is, its path ends with it. -/
theorem exists_join_suffix (dir file : String) :
    ∃ front, (join dir file).toList = front ++ file.toList := by
  unfold join
  split
  · exact ⟨[], rfl⟩
  · split
    · exact ⟨dir.toList, by simp⟩
    · exact ⟨dir.toList ++ ['/'], by simp⟩

/-! ## §4. Ends of paths. -/

/-- What stands after the last slash of a text. -/
theorem exists_tail (cs : List Char) :
    ∃ tail, '/' ∉ tail ∧ (cs = tail ∨ ∃ front, cs = front ++ '/' :: tail) := by
  by_cases h : '/' ∈ cs
  · obtain ⟨tail, front, hsplit, htail⟩ := List.eq_append_cons_of_mem (List.mem_reverse.2 h)
    refine ⟨tail.reverse, mt List.mem_reverse.1 htail, Or.inr ⟨front.reverse, ?_⟩⟩
    rw [← List.reverse_inj, hsplit]
    simp
  · exact ⟨cs, h, Or.inl rfl⟩

/-- The last part of a path is made of what stands after the last slash before its end. -/
theorem exists_parts_append (front : String) : ∃ tail : String, '/' ∉ tail.toList ∧
    ∀ back, IsFile (tail ++ back) → ∃ before, parts (front ++ back) = before ++ [tail ++ back] := by
  obtain ⟨tail, htail, hfront⟩ := exists_tail front.toList
  refine ⟨String.ofList tail, by rwa [String.toList_ofList], fun back hback => ?_⟩
  rcases hfront with hfront | ⟨before, hfront⟩
  · obtain rfl : String.ofList tail = front := by rw [← hfront, String.ofList_toList]
    exact ⟨[], hback.parts_eq⟩
  · refine ⟨parts (String.ofList before), parts_of_toList hback ?_⟩
    simp [hfront]

/-- A path with a file at its end has parts. -/
theorem exists_parts_cons {back : String} (h : ∀ tail : String, '/' ∉ tail.toList →
    IsFile (tail ++ back)) (front : String) : ∃ part rest, parts (front ++ back) = part :: rest := by
  obtain ⟨tail, htail, hends⟩ := exists_parts_append front
  obtain ⟨before, hbefore⟩ := hends back (h tail htail)
  rw [hbefore]
  exact List.exists_cons_of_ne_nil (by simp)

/-- In front of an end without slashes the path does not depend on the end. -/
theorem exists_join_append (dir stem : String) :
    ∃ front : String, ∀ back, '/' ∉ back.toList → join dir (stem ++ back) = front ++ back := by
  have habsolute : ∀ back : String, '/' ∉ back.toList →
      isAbsolute (stem ++ back) = isAbsolute stem := by
    intro back hback
    unfold isAbsolute
    rw [String.toList_append]
    cases hstem : stem.toList with
    | nil => exact isAbsolute_eq_false hback
    | cons c rest => rfl
  by_cases hplain : (isAbsolute stem || dir.isEmpty) = true
  · refine ⟨stem, fun back hback => ?_⟩
    unfold join
    rw [habsolute back hback, if_pos hplain]
  by_cases hslash : dir.toList.getLast? = some '/'
  · refine ⟨dir ++ stem, fun back hback => ?_⟩
    unfold join
    rw [habsolute back hback, if_neg hplain, if_pos hslash, String.append_assoc]
  · refine ⟨dir ++ "/" ++ stem, fun back hback => ?_⟩
    unfold join
    rw [habsolute back hback, if_neg hplain, if_neg hslash]
    simp only [String.append_assoc]

/-- What a slash cuts in two is no single file of the directory: the way leads on from its first
part. -/
theorem parts_join_of_slash {dir path first : String} {back : List Char} (hdir : dir ≠ "")
    (hfirst : IsFile first) (hpath : path.toList = first.toList ++ '/' :: back) :
    isAbsolute path = false ∧
      parts (join dir path) = parts dir ++ first :: parts (String.ofList back) := by
  have hrelative : isAbsolute path = false := by
    have hrelative := isAbsolute_eq_false hfirst.slash
    unfold isAbsolute at hrelative ⊢
    rw [hpath]
    cases hcs : first.toList with
    | nil => exact absurd (String.toList_eq_nil_iff.1 hcs) hfirst.empty
    | cons c rest =>
      rw [hcs] at hrelative
      exact hrelative
  obtain ⟨front, hjoin, hfront⟩ := exists_join_of_relative hdir hrelative
  refine ⟨hrelative, ?_⟩
  rw [parts_append_slash hjoin, String.ofList_toList, parts_append_slash hpath,
    String.ofList_toList, hfirst.parts_eq, parts_eq_of_toList hfront]
  rfl

end LogicBoard.Path
