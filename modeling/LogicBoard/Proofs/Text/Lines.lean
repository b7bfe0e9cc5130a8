/-
  LogicBoard.Proofs.Text.Lines
  ────────────────────────────────
  **LINES OF A TEXT, AND LINES THAT ARE ADDED.**

  Texts are compared line by line.  A text that a line feed ends is one of
  whole lines; the lines of several such texts, one behind the other, are the
  lines of each of them in turn.  One text has further lines than another one
  if deleting these leaves the lines of the other one, in order.

  Main statements:
    • `splitLines_append_break` — a line feed is where a text can be cut,
    • `IsWhole.splitLines_append`, `wholeLines_flatMap` — texts of whole
      lines,
    • `Gains.all_iff` — whether all lines that are deleted are of one kind
      does not depend on which ones are.
-/
import Mathlib.Data.List.Perm.Basic
import LogicBoard.Text.Blank

namespace LogicBoard.Text

universe u v

/-! ## §1. Cutting at line feeds. -/

theorem splitLines_ne_nil (cs : List Char) : splitLines cs ≠ [] := by
  cases cs with
  | nil => exact List.cons_ne_nil _ _
  | cons c rest =>
    unfold splitLines
    split
    · exact List.cons_ne_nil _ _
    · split <;> exact List.cons_ne_nil _ _

theorem splitLines_cons_of_ne {c : Char} (h : c ≠ '\n') (rest : List Char) :
    splitLines (c :: rest) = (splitLines rest).modifyHead (c :: ·) := by
  obtain ⟨line, lines, hlines⟩ := List.exists_cons_of_ne_nil (splitLines_ne_nil rest)
  show (if c = '\n' then [] :: splitLines rest else _) = _
  rw [if_neg h, hlines]
  rfl

theorem splitLines_break (rest : List Char) : splitLines ('\n' :: rest) = [] :: splitLines rest := by
  show (if '\n' = '\n' then [] :: splitLines rest else _) = _
  rw [if_pos rfl]

/-- A line feed is where a text can be cut. -/
theorem splitLines_append_break (front back : List Char) :
    splitLines (front ++ '\n' :: back) = splitLines front ++ splitLines back := by
  induction front with
  | nil => exact splitLines_break back
  | cons c front ih =>
    rw [List.cons_append]
    by_cases hc : c = '\n'
    · rw [hc, splitLines_break, splitLines_break, ih, List.cons_append]
    · rw [splitLines_cons_of_ne hc, splitLines_cons_of_ne hc, ih]
      obtain ⟨line, lines, hlines⟩ := List.exists_cons_of_ne_nil (splitLines_ne_nil front)
      rw [hlines]
      rfl

/-- What is put in front of a text without a line feed goes into its first line. -/
theorem splitLines_append_of_not_mem {front : List Char} (h : '\n' ∉ front) (back : List Char) :
    splitLines (front ++ back) = (splitLines back).modifyHead (front ++ ·) := by
  obtain ⟨line, lines, hlines⟩ := List.exists_cons_of_ne_nil (splitLines_ne_nil back)
  induction front with
  | nil =>
    rw [List.nil_append, hlines]
    rfl
  | cons c front ih =>
    obtain ⟨hc, hfront⟩ := not_or.1 (mt List.mem_cons.2 h)
    rw [List.cons_append, splitLines_cons_of_ne (Ne.symm hc), ih hfront, hlines]
    rfl

theorem splitLines_of_not_mem {line : List Char} (h : '\n' ∉ line) : splitLines line = [line] := by
  have hlines := splitLines_append_of_not_mem h []
  rw [List.append_nil] at hlines
  rw [hlines]
  exact congrArg (fun line => [line]) (List.append_nil line)

theorem not_mem_of_mem_splitLines {cs line : List Char} (h : line ∈ splitLines cs) :
    '\n' ∉ line := by
  induction cs generalizing line with
  | nil =>
    obtain rfl := List.mem_singleton.1 h
    exact List.not_mem_nil
  | cons c rest ih =>
    by_cases hc : c = '\n'
    · rw [hc, splitLines_break] at h
      rcases List.mem_cons.1 h with rfl | h
      · exact List.not_mem_nil
      · exact ih h
    · obtain ⟨first, lines, hlines⟩ := List.exists_cons_of_ne_nil (splitLines_ne_nil rest)
      rw [splitLines_cons_of_ne hc, hlines] at h
      rw [hlines] at ih
      rcases List.mem_cons.1 h with rfl | h
      · exact List.not_mem_cons_of_ne_of_not_mem (Ne.symm hc) (ih List.mem_cons_self)
      · exact ih (List.mem_cons_of_mem _ h)

/-- Lines that are put together with line feeds are found again. -/
theorem splitLines_intercalate {lines : List (List Char)} (hne : lines ≠ [])
    (h : ∀ line ∈ lines, '\n' ∉ line) : splitLines (['\n'].intercalate lines) = lines := by
  induction lines with
  | nil => exact absurd rfl hne
  | cons line rest ih =>
    obtain ⟨hline, hrest⟩ := List.forall_mem_cons.1 h
    cases rest with
    | nil =>
      rw [List.intercalate_singleton]
      exact splitLines_of_not_mem hline
    | cons next rest =>
      rw [List.intercalate_cons_cons, List.append_assoc, List.singleton_append,
        splitLines_append_break, splitLines_of_not_mem hline, ih (List.cons_ne_nil _ _) hrest]
      rfl

/-! ## §2. Whole lines. -/

/-- The text is empty, or a line feed ends it. -/
def IsWhole (cs : List Char) : Prop := cs = [] ∨ ∃ front, cs = front ++ ['\n']

/-- The lines of a text that a line feed ends. -/
def wholeLines (cs : List Char) : List (List Char) := (splitLines cs).dropLast

theorem isWhole_line (line : List Char) : IsWhole (line ++ ['\n']) := Or.inr ⟨line, rfl⟩

theorem wholeLines_line (line : List Char) : wholeLines (line ++ ['\n']) = splitLines line := by
  unfold wholeLines
  rw [splitLines_append_break]
  exact List.dropLast_concat

/-- The lines of what stands behind whole lines come behind these. -/
theorem IsWhole.splitLines_append {front : List Char} (h : IsWhole front) (back : List Char) :
    splitLines (front ++ back) = wholeLines front ++ splitLines back := by
  rcases h with rfl | ⟨front, rfl⟩
  · rfl
  · rw [wholeLines_line, List.append_assoc, List.singleton_append, splitLines_append_break]

theorem IsWhole.wholeLines_append {front : List Char} (h : IsWhole front) (back : List Char) :
    wholeLines (front ++ back) = wholeLines front ++ wholeLines back := by
  unfold wholeLines
  rw [h.splitLines_append, List.dropLast_append_of_ne_nil (splitLines_ne_nil back)]
  rfl

theorem IsWhole.append {front back : List Char} (hfront : IsWhole front) (hback : IsWhole back) :
    IsWhole (front ++ back) := by
  rcases hback with rfl | ⟨back, rfl⟩
  · rw [List.append_nil]
    exact hfront
  · rw [← List.append_assoc]
    exact isWhole_line _

variable {α : Type u}

theorem isWhole_flatMap {l : List α} {f : α → List Char} (h : ∀ a ∈ l, IsWhole (f a)) :
    IsWhole (l.flatMap f) := by
  induction l with
  | nil => exact Or.inl rfl
  | cons a rest ih =>
    obtain ⟨ha, hrest⟩ := List.forall_mem_cons.1 h
    rw [List.flatMap_cons]
    exact ha.append (ih hrest)

/-- The lines of texts of whole lines are the lines of each of them in turn. -/
theorem wholeLines_flatMap {l : List α} {f : α → List Char} (h : ∀ a ∈ l, IsWhole (f a)) :
    wholeLines (l.flatMap f) = l.flatMap fun a => wholeLines (f a) := by
  induction l with
  | nil => rfl
  | cons a rest ih =>
    obtain ⟨ha, hrest⟩ := List.forall_mem_cons.1 h
    rw [List.flatMap_cons, ha.wholeLines_append, ih hrest, List.flatMap_cons]

/-! ## §3. Lines that are added. -/

/-- Deleting the items that were added to a list leaves the items that were there. -/
inductive Gains : (after before added : List α) → Prop where
  | nil : Gains [] [] []
  | keep (a : α) {after before added : List α} (rest : Gains after before added) :
      Gains (a :: after) (a :: before) added
  | add (a : α) {after before added : List α} (rest : Gains after before added) :
      Gains (a :: after) before (a :: added)

namespace Gains

variable {after before added after' before' added' : List α}

theorem refl (l : List α) : Gains l l [] := by
  induction l with
  | nil => exact .nil
  | cons a rest ih => exact .keep a ih

theorem ofAdded (l : List α) : Gains l [] l := by
  induction l with
  | nil => exact .nil
  | cons a rest ih => exact .add a ih

theorem append (h : Gains after before added) (h' : Gains after' before' added') :
    Gains (after ++ after') (before ++ before') (added ++ added') := by
  induction h with
  | nil => exact h'
  | keep a _ ih => exact .keep a ih
  | add a _ ih => exact .add a ih

theorem map {β : Type v} (f : α → β) (h : Gains after before added) :
    Gains (after.map f) (before.map f) (added.map f) := by
  induction h with
  | nil => exact .nil
  | keep a _ ih => exact .keep (f a) ih
  | add a _ ih => exact .add (f a) ih

theorem flatMap {β : Type v} {l : List β} {f g k : β → List α}
    (h : ∀ b ∈ l, Gains (f b) (g b) (k b)) : Gains (l.flatMap f) (l.flatMap g) (l.flatMap k) := by
  induction l with
  | nil => exact .nil
  | cons b rest ih =>
    obtain ⟨hb, hrest⟩ := List.forall_mem_cons.1 h
    exact hb.append (ih hrest)

theorem sublist (h : Gains after before added) : before.Sublist after := by
  induction h with
  | nil => exact .slnil
  | keep a _ ih => exact .cons_cons a ih
  | add a _ ih => exact .cons a ih

/-- Nothing is lost, and nothing comes in from elsewhere. -/
theorem countP_eq (p : α → Bool) (h : Gains after before added) :
    after.countP p = before.countP p + added.countP p := by
  induction h with
  | nil => rfl
  | keep a _ ih =>
    rw [List.countP_cons, List.countP_cons, ih]
    omega
  | add a _ ih =>
    rw [List.countP_cons, List.countP_cons, ih]
    omega

/-- There may be several ways to delete items so that the others are left; if one of them deletes
items of one kind only, then so do all others. -/
theorem all_iff (h : Gains after before added) (p : α → Bool) :
    (∃ added', Gains after before added' ∧ ∀ a ∈ added', p a = true) ↔
      ∀ a ∈ added, p a = true := by
  refine ⟨fun hsome => ?_, fun hall => ⟨added, h, hall⟩⟩
  obtain ⟨added', h', hall⟩ := hsome
  -- Each way deletes as many items of another kind as the lists differ in.
  have hcount := h.countP_eq fun a => !p a
  have hcount' := h'.countP_eq fun a => !p a
  have hnone : added'.countP (fun a => !p a) = 0 := by
    rw [List.countP_eq_zero]
    intro a ha
    simp [hall a ha]
  have hzero : added.countP (fun a => !p a) = 0 := by omega
  intro a ha
  simpa using List.countP_eq_zero.1 hzero a ha

end Gains

end LogicBoard.Text
