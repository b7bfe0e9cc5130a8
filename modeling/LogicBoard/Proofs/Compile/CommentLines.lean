/-
  LogicBoard.Proofs.Compile.CommentLines
  ────────────────────────────────
  **THE LINES OF COMMENTS.**

  With comments, a class has a line above every block of statements that it
  does not have without them, and a program has one above its classes.  All
  other lines are the same, also after the classes are shifted.

  A comment says names as they are, and a line feed in a name ends its line.
  What comes behind the line feed is a line of the program, and it is a
  comment only if the name happens to make it one.

  Main statements:
    • `all_isComment_iff` — when what is said in a comment stays in it,
    • `CodeBlock.gains_text`, `ClassContext.gains_text`,
      `ProgramContext.gains_text` — the lines that comments add.
-/
import LogicBoard.Proofs.Compile.Written

namespace LogicBoard

open Template (indent withMargin)
open Text (splitLines wholeLines IsWhole Gains)

/-! ## §1. Lines that are comments. -/

namespace Text

/-- Is the line a comment behind the blanks that it begins with? -/
def isComment (line : List Char) : Bool :=
  ['/', '/'].isPrefixOf (line.dropWhile isBlank)

/-- One text is the other one with comments added to it. -/
def AddsComments (plain commented : String) : Prop :=
  ∃ added, Gains (splitLines commented.toList) (splitLines plain.toList) added ∧
    ∀ line ∈ added, isComment line = true

theorem isComment_withMargin (width : Nat) (line : List Char) :
    isComment (withMargin width line) = isComment line := by
  unfold withMargin
  split
  · rfl
  · have hblanks : ∀ c ∈ List.replicate width ' ', isBlank c = true := by
      intro c hc
      rw [(List.mem_replicate.1 hc).2]
      decide
    unfold isComment
    rw [List.dropWhile_append_of_pos hblanks]

/-- What is said is a comment as a whole once it has the sign of a comment in front.  Up to the first
line feed that is so anyway, and each line behind that is on its own. -/
def StaysComment (label : String) : Prop :=
  ∀ line ∈ (splitLines label.toList).tail, isComment line = true

theorem staysComment_of_not_mem {label : String} (h : '\n' ∉ label.toList) : StaysComment label := by
  unfold StaysComment
  rw [splitLines_of_not_mem h]
  intro line hline
  exact absurd hline List.not_mem_nil

theorem all_isComment_iff {front : String} (hfront : '\n' ∉ front.toList)
    (hcomment : ∀ rest, isComment (front.toList ++ rest) = true) (label : String) :
    (∀ line ∈ splitLines (front ++ label).toList, isComment line = true) ↔ StaysComment label := by
  unfold StaysComment
  obtain ⟨first, others, hlines⟩ := List.exists_cons_of_ne_nil (splitLines_ne_nil label.toList)
  rw [String.toList_append, splitLines_append_of_not_mem hfront, hlines]
  show (∀ line ∈ (front.toList ++ first) :: others, isComment line = true) ↔
    ∀ line ∈ others, isComment line = true
  rw [List.forall_mem_cons]
  exact and_iff_right (hcomment first)

end Text

open Text (isComment AddsComments StaysComment)

/-! ## §2. Classes. -/

theorem isWhole_of_suffix {back : List Char} (h : ∃ line, back = line ++ ['\n'])
    (front : List Char) : IsWhole (front ++ back) := by
  obtain ⟨line, rfl⟩ := h
  rw [← List.append_assoc]
  exact Text.isWhole_line _

namespace CodeBlock

/-- The lines of the comment above a block. -/
def commentLines (b : CodeBlock) : List (List Char) := splitLines ("      // " ++ b.label).toList

variable (b : CodeBlock) (debug : Bool)

theorem isWhole_comment : IsWhole (b.comment debug).toList := by
  unfold comment
  cases debug
  · exact Or.inl rfl
  · rw [if_pos rfl, String.toList_append]
    exact isWhole_of_suffix ⟨[], rfl⟩ _

/-- The statements of a block are whole lines. -/
theorem isWhole_statements : IsWhole
    (String.join (b.lines.map fun line => "      " ++ line ++ "\n")).toList := by
  rw [String.toList_join]
  refine Text.isWhole_flatMap fun s hs => ?_
  obtain ⟨line, -, rfl⟩ := List.mem_map.1 hs
  rw [String.toList_append]
  exact isWhole_of_suffix ⟨[], rfl⟩ _

theorem isWhole_text : IsWhole (b.text debug).toList := by
  unfold text
  rw [String.toList_append, String.toList_append]
  exact ((isWhole_of_suffix ⟨[], rfl⟩ []).append (b.isWhole_comment debug)).append b.isWhole_statements

theorem gains_comment :
    Gains (wholeLines (b.comment true).toList) (wholeLines (b.comment false).toList)
      b.commentLines := by
  have hcomment : (b.comment true).toList = ("      // " ++ b.label).toList ++ ['\n'] := by
    show ("      // " ++ b.label ++ "\n").toList = _
    rw [String.toList_append]
    rfl
  rw [hcomment, Text.wholeLines_line]
  exact .ofAdded _

/-- A block with a comment has the lines of the comment in addition. -/
theorem gains_text : Gains (wholeLines (b.text true).toList) (wholeLines (b.text false).toList)
    b.commentLines := by
  have hlines : ∀ debug, wholeLines (b.text debug).toList = wholeLines ['\n'] ++
      (wholeLines (b.comment debug).toList ++ wholeLines
        (String.join (b.lines.map fun line => "      " ++ line ++ "\n")).toList) := by
    intro debug
    have hbreak : IsWhole "\n".toList := Or.inr ⟨[], rfl⟩
    unfold text
    rw [String.toList_append, String.toList_append, List.append_assoc, hbreak.wholeLines_append,
      (b.isWhole_comment debug).wholeLines_append]
    rfl
  have hgains := (Gains.refl (wholeLines ['\n'])).append (b.gains_comment.append (.refl (wholeLines
    (String.join (b.lines.map fun line => "      " ++ line ++ "\n")).toList)))
  rw [List.nil_append, List.append_nil] at hgains
  rw [hlines, hlines]
  exact hgains

end CodeBlock

namespace ClassContext

variable (c : ClassContext)

/-- The class with or without comments. -/
def withDebug (debug : Bool) : ClassContext := { c with debug }

/-- The lines of the comments of a class. -/
def commentLines : List (List Char) := c.blocks.flatMap (·.commentLines)

theorem isWhole_head : IsWhole c.head.toList := by
  have hloop : ∀ (l : List String) (f : String → String) (front : List Char),
      (∀ s, ∃ line, (f s).toList = line ++ ['\n']) → IsWhole front →
      IsWhole (front ++ (String.join (l.map f)).toList) := by
    intro l f front hf hfront
    rw [String.toList_join]
    refine hfront.append (Text.isWhole_flatMap fun s hs => ?_)
    obtain ⟨a, -, rfl⟩ := List.mem_map.1 hs
    exact isWhole_of_suffix (hf a) []
  unfold head
  rw [String.toList_append, String.toList_append, String.toList_append]
  refine hloop _ _ _ (fun s => ⟨("      let " ++ s ++ " = false;").toList, by simp⟩) ?_
  refine hloop _ _ _ (fun s => ⟨("      const " ++ s ++ " = this." ++ s ++ ";").toList, by simp⟩) ?_
  exact isWhole_of_suffix ⟨[')', ' ', '{'], rfl⟩ _

/-- A class with comments has their lines in addition. -/
theorem gains_text : Gains (splitLines (c.withDebug true).text.toList)
    (splitLines (c.withDebug false).text.toList) c.commentLines := by
  have hblocks : ∀ debug, IsWhole (String.join (c.blocks.map (·.text debug))).toList ∧
      wholeLines (String.join (c.blocks.map (·.text debug))).toList
        = c.blocks.flatMap fun b => wholeLines (b.text debug).toList := by
    intro debug
    rw [String.toList_join, List.flatMap_map]
    exact ⟨Text.isWhole_flatMap fun b _ => b.isWhole_text debug,
      Text.wholeLines_flatMap fun b _ => b.isWhole_text debug⟩
  have hlines : ∀ debug, splitLines (c.withDebug debug).text.toList = wholeLines c.head.toList ++
      ((c.blocks.flatMap fun b => wholeLines (b.text debug).toList) ++ splitLines c.tail.toList) := by
    intro debug
    show splitLines (c.head ++ String.join (c.blocks.map (·.text debug)) ++ c.tail).toList = _
    rw [String.toList_append, String.toList_append, List.append_assoc,
      c.isWhole_head.splitLines_append, (hblocks debug).1.splitLines_append, (hblocks debug).2]
  have hgains := (Gains.refl (wholeLines c.head.toList)).append
    ((Gains.flatMap (l := c.blocks) fun b _ => b.gains_text).append
      (.refl (splitLines c.tail.toList)))
  rw [List.nil_append, List.append_nil] at hgains
  rw [hlines, hlines]
  exact hgains

theorem text_begins : ∃ rest, c.text.toList = 'c' :: rest := by
  unfold text head
  simp only [String.toList_append, String.reduceToList, List.cons_append]
  exact ⟨_, rfl⟩

theorem text_ends :
    ∃ front, c.text.toList = front ++ '\n' :: (['}', ')', '(', ')'] ++ [';']) := by
  refine ⟨(c.head ++ String.join (c.blocks.map (·.text c.debug)) ++ "\n      return ["
    ++ ", ".intercalate c.outputs ++ "];\n    \x7d\n  \x7d;").toList, ?_⟩
  unfold text tail
  simp only [String.toList_append, String.reduceToList, List.cons_append, List.append_assoc,
    List.nil_append]

/-- All lines of a class are shifted, also the first one, to which the blanks come from outside. -/
theorem splitLines_shifted : splitLines ("  " ++ indent 2 c.text).toList
    = (splitLines c.text.toList).map (withMargin 2) := by
  obtain ⟨rest, hbegins⟩ := c.text_begins
  obtain ⟨front, hends⟩ := c.text_ends
  obtain ⟨first, others, hlines⟩ := List.exists_cons_of_ne_nil (Text.splitLines_ne_nil rest)
  have hclass : splitLines c.text.toList = ('c' :: first) :: others := by
    rw [hbegins, Text.splitLines_cons_of_ne (by decide), hlines]
    rfl
  rw [String.toList_append, Text.splitLines_append_of_not_mem (by decide),
    Template.splitLines_indent 2 (by decide) (by decide) hends, hclass]
  rfl

end ClassContext

/-! ## §3. Programs. -/

namespace ProgramContext

/-- The program of classes, with or without comments. -/
def withClasses (c : ProgramContext) (classes : List ClassContext) (debug : Bool) : ProgramContext :=
  { c with blocks := classes.map fun k => (k.withDebug debug).text, debug }

variable (c : ProgramContext) (classes : List ClassContext)

/-- The lines of the comment in front of the classes. -/
def commentLines : List (List Char) := splitLines ("  // " ++ c.label).toList

/-- The lines of a class in a program. -/
theorem wholeLines_class (k : ClassContext) :
    IsWhole ("  " ++ indent 2 k.text ++ "\n\n").toList ∧
      wholeLines ("  " ++ indent 2 k.text ++ "\n\n").toList
        = (splitLines k.text.toList).map (withMargin 2) ++ [[]] := by
  have hclass : ("  " ++ indent 2 k.text ++ "\n\n").toList
      = (("  " ++ indent 2 k.text).toList ++ ['\n']) ++ ['\n'] := by
    rw [String.toList_append, List.append_assoc]
    rfl
  rw [hclass]
  refine ⟨Text.isWhole_line _, ?_⟩
  rw [(Text.isWhole_line _).wholeLines_append, Text.wholeLines_line, k.splitLines_shifted]
  rfl

theorem isWhole_comment : IsWhole c.comment.toList := by
  unfold comment
  split
  · rw [String.toList_append]
    exact isWhole_of_suffix ⟨[], rfl⟩ _
  · exact Or.inl rfl

/-- A program with comments has their lines in addition. -/
theorem gains_text : Gains (splitLines (c.withClasses classes true).text.toList)
    (splitLines (c.withClasses classes false).text.toList)
    ((c.withClasses classes true).commentLines ++
      classes.flatMap fun k => k.commentLines.map (withMargin 2)) := by
  have hlines : ∀ debug, splitLines (c.withClasses classes debug).text.toList
      = wholeLines "(function () \x7b\n".toList ++
        (wholeLines (c.withClasses classes debug).comment.toList ++
          ((classes.flatMap fun k => (splitLines (k.withDebug debug).text.toList).map (withMargin 2)
            ++ [[]]) ++ splitLines c.tail.toList)) := by
    intro debug
    have hfirst : IsWhole "(function () \x7b\n".toList := Or.inr ⟨"(function () \x7b".toList, rfl⟩
    have hclasses : (String.join ((c.withClasses classes debug).blocks.map fun code =>
        "  " ++ indent 2 code ++ "\n\n")).toList = classes.flatMap fun k =>
          ("  " ++ indent 2 (k.withDebug debug).text ++ "\n\n").toList := by
      show (String.join ((classes.map fun k => (k.withDebug debug).text).map _)).toList = _
      rw [String.toList_join, List.map_map, List.flatMap_map]
      rfl
    have htail : (c.withClasses classes debug).tail = c.tail := rfl
    have hwhole : ∀ k ∈ classes,
        IsWhole ("  " ++ indent 2 (k.withDebug debug).text ++ "\n\n").toList :=
      fun k _ => (wholeLines_class _).1
    unfold text
    rw [String.toList_append, String.toList_append, String.toList_append, hclasses, htail,
      List.append_assoc, List.append_assoc, hfirst.splitLines_append,
      (isWhole_comment _).splitLines_append, (Text.isWhole_flatMap hwhole).splitLines_append,
      Text.wholeLines_flatMap hwhole]
    simp only [(wholeLines_class _).2]
  have hcomment : Gains (wholeLines (c.withClasses classes true).comment.toList)
      (wholeLines (c.withClasses classes false).comment.toList)
      (c.withClasses classes true).commentLines := by
    have htext : (c.withClasses classes true).comment.toList
        = ("  // " ++ (c.withClasses classes true).label).toList ++ ['\n'] := by
      show ("  // " ++ (c.withClasses classes true).label ++ "\n").toList = _
      rw [String.toList_append]
      rfl
    rw [htext, Text.wholeLines_line]
    exact .ofAdded _
  have hclasses := Gains.flatMap (l := classes) fun k _ =>
    (k.gains_text.map (withMargin 2)).append (.refl [[]])
  have hgains := (Gains.refl (wholeLines "(function () \x7b\n".toList)).append
    (hcomment.append (hclasses.append (.refl (splitLines c.tail.toList))))
  simp only [List.nil_append, List.append_nil] at hgains
  rw [hlines, hlines]
  exact hgains

/-- What is said in the comments of a program. -/
def labels : List String :=
  (c.withClasses classes true).label :: classes.flatMap fun k => k.blocks.map (·.label)

/-- Comments add nothing else exactly if all that is said in them stays in them. -/
theorem addsComments_iff :
    AddsComments (c.withClasses classes false).text (c.withClasses classes true).text ↔
      ∀ label ∈ c.labels classes, StaysComment label := by
  have hprogram : (∀ line ∈ (c.withClasses classes true).commentLines, isComment line = true) ↔
      StaysComment (c.withClasses classes true).label :=
    Text.all_isComment_iff (by decide) (fun _ => rfl) _
  have hblock : ∀ b : CodeBlock,
      (∀ line ∈ b.commentLines, isComment line = true) ↔ StaysComment b.label :=
    fun b => Text.all_isComment_iff (by decide) (fun _ => rfl) _
  have hclass : ∀ k : ClassContext,
      (∀ line ∈ k.commentLines.map (withMargin 2), isComment line = true) ↔
        ∀ label ∈ k.blocks.map (·.label), StaysComment label := by
    intro k
    unfold ClassContext.commentLines
    simp only [List.forall_mem_map, Text.isComment_withMargin, List.forall_mem_flatMap, hblock]
  unfold AddsComments
  rw [(c.gains_text classes).all_iff isComment, List.forall_mem_append, hprogram]
  unfold labels
  simp only [List.forall_mem_cons, List.forall_mem_flatMap, hclass]

end ProgramContext

end LogicBoard
