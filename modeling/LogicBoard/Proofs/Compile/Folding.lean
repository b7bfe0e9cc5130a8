/-
  LogicBoard.Proofs.Compile.Folding
  ────────────────────────────────
  **WHAT FOLDING KEEPS AND WHAT IT LOSES.**

  Folding keeps the runs of letters and digits of a text, and whether other
  characters stand in front of the first run and behind the last one.  Which
  characters these are, and how many of them stand together, is lost.  In a
  folded text no two underscores stand side by side, and texts like that are
  left as they are.

  Main statements:
    • `outlineOf_fold` — a folded text has the outline of the text,
    • `wordsFrom_congr` — texts of one outline have the same words,
    • `fold_eq_self_iff` — which texts folding leaves as they are,
    • `isIdentifier_className` — classes have valid names,
    • `fold_exact` — all that folding keeps and loses.
-/
import LogicBoard.Proofs.Compile.Identifiers

namespace LogicBoard.Identifier

/-! ## §1. Outlines. -/

/-- Does a text begin with a letter or a digit? -/
def startsWord (l : List Char) : Bool := l.head?.any (·.isAlphanum)

/-- Does a text end with something other than a letter or a digit? -/
def endsBetween (l : List Char) : Bool := l.getLast?.any (!·.isAlphanum)

/-- The maximal runs of letters and digits: the parts that are left of a text when it is cut at
every other character, without the empty ones. -/
def runsOf (l : List Char) : List (List Char) :=
  (l.splitOnP (!·.isAlphanum)).filter (!·.isEmpty)

/-- What folding keeps of a text. -/
structure Outline where
  /-- The maximal runs of letters and digits, in their order. -/
  runs : List (List Char)
  /-- Does the text begin with another character? -/
  begins : Bool
  /-- Does it end with another character? -/
  ends : Bool
deriving DecidableEq

/-- The outline of a text. -/
def outlineOf (l : List Char) : Outline := ⟨runsOf l, startsBetween l, endsBetween l⟩

theorem startsBetween_cons (c : Char) (l : List Char) :
    startsBetween (c :: l) = !c.isAlphanum := rfl

theorem startsWord_eq {l : List Char} (h : l ≠ []) : startsWord l = !startsBetween l := by
  obtain ⟨c, rest, rfl⟩ := List.exists_cons_of_ne_nil h
  simp [startsWord, startsBetween]

theorem endsBetween_cons (c : Char) {l : List Char} (h : l ≠ []) :
    endsBetween (c :: l) = endsBetween l := by
  unfold endsBetween
  rw [List.getLast?_cons_of_ne_nil h]

theorem runsOf_nil : runsOf [] = [] := rfl

theorem runsOf_cons_between {c : Char} (hc : ¬ c.isAlphanum = true) (l : List Char) :
    runsOf (c :: l) = runsOf l := by
  unfold runsOf
  rw [List.splitOnP_cons_eq_if_modifyHead]
  simp [hc]

/-- A letter or digit goes into the run behind it if there is one. -/
theorem runsOf_cons_word {c : Char} (hc : c.isAlphanum = true) (l : List Char) :
    runsOf (c :: l) =
      if startsWord l then (runsOf l).modifyHead (c :: ·) else [c] :: runsOf l := by
  unfold runsOf
  rw [List.splitOnP_cons_eq_if_modifyHead]
  cases l with
  | nil => simp [hc, startsWord]
  | cons d rest =>
    rw [List.splitOnP_cons_eq_if_modifyHead]
    obtain ⟨w, ws, hws⟩ := List.exists_cons_of_ne_nil
      (List.splitOnP_ne_nil (!·.isAlphanum) rest)
    rw [hws]
    by_cases hd : d.isAlphanum = true <;> simp [hc, hd, startsWord]

/-- A letter or digit in front begins the first run. -/
theorem exists_runsOf_eq {c : Char} (hc : c.isAlphanum = true) (l : List Char) :
    ∃ w ws, runsOf (c :: l) = (c :: w) :: ws := by
  obtain ⟨w, ws, hws⟩ := List.exists_cons_of_ne_nil (List.splitOnP_ne_nil (!·.isAlphanum) l)
  refine ⟨w, ws.filter (!·.isEmpty), ?_⟩
  unfold runsOf
  rw [List.splitOnP_cons_eq_if_modifyHead, hws]
  simp [hc]

/-- A text without runs begins and ends with another character, unless it is empty. -/
theorem outlineOf_of_runsOf_eq_nil {l : List Char} (h : runsOf l = []) :
    outlineOf l = ⟨[], !l.isEmpty, !l.isEmpty⟩ := by
  induction l with
  | nil => rfl
  | cons c rest ih =>
    have hc : ¬ c.isAlphanum = true := by
      intro hc
      obtain ⟨w, ws, hws⟩ := exists_runsOf_eq hc rest
      exact absurd (hws.symm.trans h) (List.cons_ne_nil _ _)
    rw [runsOf_cons_between hc] at h
    have hends : endsBetween (c :: rest) = true := by
      by_cases hrest : rest = []
      · subst hrest
        simp [endsBetween, hc]
      · have hlast : endsBetween rest = !rest.isEmpty := congrArg Outline.ends (ih h)
        rw [endsBetween_cons c hrest, hlast]
        simp [hrest]
    unfold outlineOf
    rw [runsOf_cons_between hc, h, startsBetween_cons, hends]
    simp [hc]

/-- Only the empty text has no runs and does not begin with another character either. -/
theorem eq_nil_iff_runsOf {l : List Char} : l = [] ↔ runsOf l = [] ∧ startsBetween l = false := by
  constructor
  · rintro rfl
    exact ⟨rfl, rfl⟩
  · rintro ⟨hruns, hstarts⟩
    have hempty : startsBetween l = !l.isEmpty :=
      congrArg Outline.begins (outlineOf_of_runsOf_eq_nil hruns)
    rw [hstarts] at hempty
    simpa using hempty

/-- Texts with one outline are both empty, as that shows in the outline, or neither is. -/
theorem cases_of_outlineOf_eq {l m : List Char} (h : outlineOf l = outlineOf m) :
    (l = [] ∧ m = []) ∨
      (l ≠ [] ∧ m ≠ [] ∧ runsOf l = runsOf m ∧ startsBetween l = startsBetween m ∧
        endsBetween l = endsBetween m) := by
  have hruns : runsOf l = runsOf m := congrArg Outline.runs h
  have hbegins : startsBetween l = startsBetween m := congrArg Outline.begins h
  have hends : endsBetween l = endsBetween m := congrArg Outline.ends h
  have hnil : l = [] ↔ m = [] := by rw [eq_nil_iff_runsOf, eq_nil_iff_runsOf, hruns, hbegins]
  by_cases hl : l = []
  · exact Or.inl ⟨hl, hnil.1 hl⟩
  · exact Or.inr ⟨hl, fun hm => hl (hnil.2 hm), hruns, hbegins, hends⟩

/-! ## §2. What folding keeps. -/

/-- Of what stands behind a character, only the outline matters. -/
theorem outlineOf_cons_congr (c : Char) {l m : List Char} (h : outlineOf l = outlineOf m) :
    outlineOf (c :: l) = outlineOf (c :: m) := by
  rcases cases_of_outlineOf_eq h with ⟨rfl, rfl⟩ | ⟨hl, hm, hruns, hbegins, hends⟩
  · rfl
  · have hword : startsWord l = startsWord m := by
      rw [startsWord_eq hl, startsWord_eq hm, hbegins]
    have hrunsOf : runsOf (c :: l) = runsOf (c :: m) := by
      by_cases hc : c.isAlphanum = true
      · rw [runsOf_cons_word hc, runsOf_cons_word hc, hword, hruns]
      · rw [runsOf_cons_between hc, runsOf_cons_between hc, hruns]
    unfold outlineOf
    rw [hrunsOf, startsBetween_cons, startsBetween_cons, endsBetween_cons c hl,
      endsBetween_cons c hm, hends]

/-- Other characters are not told apart. -/
theorem outlineOf_between {c d : Char} (hc : ¬ c.isAlphanum = true) (hd : ¬ d.isAlphanum = true)
    (l : List Char) : outlineOf (c :: l) = outlineOf (d :: l) := by
  have hends : endsBetween (c :: l) = endsBetween (d :: l) := by
    by_cases hl : l = []
    · subst hl
      simp [endsBetween, hc, hd]
    · rw [endsBetween_cons c hl, endsBetween_cons d hl]
  unfold outlineOf
  rw [runsOf_cons_between hc, runsOf_cons_between hd, startsBetween_cons, startsBetween_cons, hends]
  simp [hc, hd]

/-- It does not matter how many of them stand together. -/
theorem outlineOf_between_twice {c d : Char} (hc : ¬ c.isAlphanum = true)
    (hd : ¬ d.isAlphanum = true) (l : List Char) :
    outlineOf (c :: d :: l) = outlineOf (d :: l) := by
  unfold outlineOf
  rw [runsOf_cons_between hc, startsBetween_cons, startsBetween_cons,
    endsBetween_cons c (List.cons_ne_nil d l)]
  simp [hc, hd]

/-- Folding keeps the outline.  An underscore that already stands for what was just read counts as
part of the text, before folding and after it. -/
theorem outlineOf_foldFrom (inRun : Bool) (l : List Char) :
    outlineOf ((if inRun then ['_'] else []) ++ foldFrom inRun l)
      = outlineOf ((if inRun then ['_'] else []) ++ l) := by
  have hunderscore : ¬ '_'.isAlphanum = true := by decide
  induction l generalizing inRun with
  | nil => rfl
  | cons c rest ih =>
    unfold foldFrom
    by_cases hc : c.isAlphanum = true
    · -- The character stays, and behind it a new run may begin.
      have hrest : outlineOf (c :: foldFrom false rest) = outlineOf (c :: rest) :=
        outlineOf_cons_congr c (ih false)
      rw [if_pos hc]
      cases inRun with
      | false => exact hrest
      | true => exact outlineOf_cons_congr '_' hrest
    · -- An underscore takes its place, or the one in front of it already has.
      have hrest : outlineOf ('_' :: foldFrom true rest) = outlineOf (c :: rest) :=
        (ih true).trans (outlineOf_between hunderscore hc rest)
      rw [if_neg hc]
      cases inRun with
      | false => exact hrest
      | true => exact hrest.trans (outlineOf_between_twice hunderscore hc rest).symm

/-- A folded text has the outline of the text. -/
theorem outlineOf_fold (s : String) : outlineOf (fold s).toList = outlineOf s.toList := by
  unfold fold
  rw [String.toList_ofList]
  exact outlineOf_foldFrom false s.toList

example : outlineOf (fold "2nd ünit #!").toList
    = ⟨[['2', 'n', 'd'], ['n', 'i', 't']], false, true⟩ := by decide

/-! ## §3. What folding loses. -/

/-- The words of a text are its runs, with an empty word in front if it begins with another
character, and one behind if it ends with one. -/
theorem wordsFrom_eq {l : List Char} (h : l ≠ []) :
    wordsFrom l = (if startsBetween l then [[]] else []) ++ runsOf l
      ++ (if endsBetween l then [[]] else []) := by
  induction l with
  | nil => exact absurd rfl h
  | cons c rest ih =>
    unfold wordsFrom
    by_cases hrest : rest = []
    · subst hrest
      by_cases hc : c.isAlphanum = true
      · rw [if_pos hc, runsOf_cons_word hc, runsOf_nil]
        simp [hc, wordsFrom, startsWord, startsBetween, endsBetween]
      · rw [if_neg hc, runsOf_cons_between hc, runsOf_nil]
        simp [hc, wordsFrom, startsBetween, endsBetween]
    · have ih := ih hrest
      rw [endsBetween_cons c hrest, startsBetween_cons, ih]
      by_cases hc : c.isAlphanum = true
      · -- It goes into the first word, which is the empty one in front or the first run.
        rw [if_pos hc, runsOf_cons_word hc, startsWord_eq hrest]
        cases hstarts : startsBetween rest with
        | true => simp [hc]
        | false =>
          obtain ⟨d, rest, rfl⟩ := List.exists_cons_of_ne_nil hrest
          have hd : d.isAlphanum = true := by simpa [startsBetween_cons] using hstarts
          obtain ⟨w, ws, hws⟩ := exists_runsOf_eq hd rest
          simp [hc, hws]
      · rw [if_neg hc, runsOf_cons_between hc]
        cases startsBetween rest <;> simp [hc]

/-- Texts with one outline have the same words. -/
theorem wordsFrom_congr {l m : List Char} (h : outlineOf l = outlineOf m) :
    wordsFrom l = wordsFrom m := by
  rcases cases_of_outlineOf_eq h with ⟨rfl, rfl⟩ | ⟨hl, hm, hruns, hbegins, hends⟩
  · rfl
  · rw [wordsFrom_eq hl, wordsFrom_eq hm, hruns, hbegins, hends]

/-- Texts fold to the same identifier exactly if they have the same outline. -/
theorem fold_eq_iff_outlineOf {s t : String} :
    fold s = fold t ↔ outlineOf s.toList = outlineOf t.toList := by
  constructor
  · intro h
    rw [← outlineOf_fold s, ← outlineOf_fold t, h]
  · intro h
    exact fold_eq_iff.2 (wordsFrom_congr h)

/-! ## §4. Folded texts. -/

/-- Is it a letter, a digit or an underscore? -/
def isPlain (c : Char) : Bool := c.isAlphanum || c = '_'

/-- There are only letters, digits and underscores, and no two underscores side by side. -/
structure IsFolded (l : List Char) : Prop where
  plain : ∀ c ∈ l, isPlain c = true
  single : ¬ ['_', '_'] <:+: l

theorem isFolded_cons_iff {c : Char} {l : List Char} :
    IsFolded (c :: l) ↔ isPlain c = true ∧ ¬ (c = '_' ∧ l.head? = some '_') ∧ IsFolded l := by
  have hpair : ['_', '_'] <:+: c :: l ↔ (c = '_' ∧ l.head? = some '_') ∨ ['_', '_'] <:+: l := by
    rw [List.infix_cons_iff, List.cons_prefix_cons, List.singleton_prefix_iff_head?_eq_some]
    simp [eq_comm]
  constructor
  · rintro ⟨hplain, hsingle⟩
    rw [hpair, not_or] at hsingle
    rw [List.forall_mem_cons] at hplain
    exact ⟨hplain.1, hsingle.1, hplain.2, hsingle.2⟩
  · rintro ⟨hc, hnext, hplain, hsingle⟩
    exact ⟨List.forall_mem_cons.2 ⟨hc, hplain⟩, fun h => (hpair.1 h).elim hnext hsingle⟩

/-- What comes out of folding is folded, and does not begin with a second underscore. -/
theorem isFolded_foldFrom (inRun : Bool) (l : List Char) :
    IsFolded (foldFrom inRun l) ∧ (inRun = true → (foldFrom inRun l).head? ≠ some '_') := by
  induction l generalizing inRun with
  | nil => exact ⟨⟨by simp [foldFrom], by simp [foldFrom]⟩, by simp [foldFrom]⟩
  | cons c rest ih =>
    unfold foldFrom
    by_cases hc : c.isAlphanum = true
    · have hne : c ≠ '_' := by
        rintro rfl
        exact absurd hc (by decide)
      rw [if_pos hc]
      exact ⟨isFolded_cons_iff.2 ⟨by simp [isPlain, hc], by simp [hne], (ih false).1⟩,
        by simp [hne]⟩
    · rw [if_neg hc]
      cases inRun with
      | true => exact ih true
      | false =>
        refine ⟨isFolded_cons_iff.2 ⟨rfl, ?_, (ih true).1⟩, by simp⟩
        exact fun h => (ih true).2 rfl h.2

theorem isFolded_fold (s : String) : IsFolded (fold s).toList := by
  unfold fold
  rw [String.toList_ofList]
  exact (isFolded_foldFrom false s.toList).1

/-- A folded text is left as it is. -/
theorem foldFrom_eq_self {inRun : Bool} {l : List Char} (h : IsFolded l)
    (hrun : inRun = true → l.head? ≠ some '_') : foldFrom inRun l = l := by
  induction l generalizing inRun with
  | nil => rfl
  | cons c rest ih =>
    obtain ⟨hplain, hnext, hrest⟩ := isFolded_cons_iff.1 h
    unfold foldFrom
    by_cases hc : c.isAlphanum = true
    · rw [if_pos hc, ih hrest (by simp)]
    · have hunderscore : c = '_' := by simpa [isPlain, hc] using hplain
      subst hunderscore
      have hfree : ¬ inRun = true := fun hin => hrun hin rfl
      rw [if_neg hc, if_neg hfree, ih hrest fun _ hhead => hnext ⟨rfl, hhead⟩]

/-- The folded texts are those that folding leaves as they are. -/
theorem fold_eq_self_iff {s : String} : fold s = s ↔ IsFolded s.toList := by
  constructor
  · intro h
    rw [← h]
    exact isFolded_fold s
  · intro h
    unfold fold
    rw [foldFrom_eq_self h (by simp), String.ofList_toList]

/-! ## §5. Names of classes. -/

/-- There are only letters, digits and underscores, at least one of them, and no digit in front. -/
structure IsIdentifier (s : String) : Prop where
  plain : ∀ c ∈ s.toList, isPlain c = true
  begins : ∃ c, s.toList.head? = some c ∧ c.isDigit = false

theorem isIdentifier_className (type : Name) : IsIdentifier (className type) := by
  have hname : (className type).toList
      = (if startsWithDigit (fold type.text) then ['_'] else [])
        ++ (fold type.text).toList ++ ['C', 'h', 'i', 'p'] := by
    unfold className
    dsimp only
    split <;> simp
  constructor
  case plain =>
    intro c hc
    rw [hname, List.mem_append, List.mem_append] at hc
    rcases hc with (hfront | hbase) | hending
    · split at hfront
      · obtain rfl : c = '_' := List.mem_singleton.1 hfront
        rfl
      · exact absurd hfront List.not_mem_nil
    · exact (isFolded_fold type.text).plain c hbase
    · have hplain : ['C', 'h', 'i', 'p'].all isPlain = true := by decide
      exact List.all_eq_true.1 hplain c hending
  case begins =>
    rw [hname]
    unfold startsWithDigit
    cases (fold type.text).toList with
    | nil => exact ⟨'C', rfl, rfl⟩
    | cons d rest =>
      cases hd : d.isDigit with
      | true => exact ⟨'_', by simp [hd], rfl⟩
      | false => exact ⟨d, by simp [hd], hd⟩

/-! ## §6. All together. -/

/-- Folding gives letters, digits and single underscores, and folding again changes nothing.  Two
texts are folded to the same exactly if they have the same runs of letters and digits and agree on
whether they begin and whether they end with another character; texts without runs thus have to be
both empty or both not.  Classes have valid names. -/
theorem fold_exact :
    (∀ s, IsFolded (fold s).toList ∧ fold (fold s) = fold s ∧
      (fold s = s ↔ IsFolded s.toList)) ∧
    (∀ s t, fold s = fold t ↔ outlineOf s.toList = outlineOf t.toList) ∧
    (∀ l, runsOf l = [] ↔ outlineOf l = ⟨[], !l.isEmpty, !l.isEmpty⟩) ∧
    ∀ type, IsIdentifier (className type) := by
  refine ⟨fun s => ?_, fun s t => fold_eq_iff_outlineOf, fun l => ?_, isIdentifier_className⟩
  · have hfolded : IsFolded (fold s).toList := isFolded_fold s
    exact ⟨hfolded, fold_eq_self_iff.2 hfolded, fold_eq_self_iff⟩
  · constructor
    · exact outlineOf_of_runsOf_eq_nil
    · exact congrArg Outline.runs

end LogicBoard.Identifier
