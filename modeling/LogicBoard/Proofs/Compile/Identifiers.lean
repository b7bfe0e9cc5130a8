/-
  LogicBoard.Proofs.Compile.Identifiers
  ────────────────────────────────
  **WHEN TWO IDENTIFIERS ARE THE SAME.**

  Folding keeps the words of a text, its runs of letters and digits, and
  forgets what stood between them.  The underscores that join the parts of a
  variable look like those that folding leaves behind.  So two variables of a
  kind are the same exactly if they consist of the same words, wherever the
  name of the chip ends and that of the port begins.

  What identifiers look like is spelled out here from the words alone, so that
  a statement about a program can say which names stand in it.

  Main statements:
    • `foldFrom_eq` — a folded text is its words, joined by underscores,
    • `variableOf_eq_spelled`, `wireStatement_eq_copy` — how variables and the
      statements of wires are spelled,
    • `joined_inj` — the words can be read back,
    • `variableOf_eq_iff`, `ofPin_eq_iff`, `object_eq_iff`, `className_eq_iff`
      — which identifiers are the same.
-/
import LogicBoard.Compile.Identifier

namespace LogicBoard.Identifier

/-! ## §1. Words. -/

/-- Does a text begin with something other than a letter or a digit? -/
def startsBetween (l : List Char) : Bool := l.head?.any (!·.isAlphanum)

/-- The runs of letters and digits; a text that begins or ends with other characters has an empty
run there. -/
def wordsFrom : List Char → List (List Char)
  | [] => [[]]
  | c :: rest =>
    if c.isAlphanum then (wordsFrom rest).modifyHead (c :: ·)
    else if startsBetween rest then wordsFrom rest
    else [] :: wordsFrom rest

/-- The words of a text. -/
def words (s : String) : List (List Char) := wordsFrom s.toList

/-- The words that a class is named after.  The underscore before a digit counts as what stands
between an empty word and the first one. -/
def classWords (type : Name) : List (List Char) :=
  if startsWithDigit (fold type.text) then [] :: words type.text else words type.text

theorem wordsFrom_ne_nil (l : List Char) : wordsFrom l ≠ [] := by
  induction l with
  | nil => simp [wordsFrom]
  | cons c rest ih =>
    unfold wordsFrom
    split
    · rw [ne_eq, List.modifyHead_eq_nil_iff]
      exact ih
    · split
      · exact ih
      · simp

theorem words_ne_nil (s : String) : words s ≠ [] := wordsFrom_ne_nil _

/-- There is nothing but letters and digits in words. -/
theorem isAlphanum_of_mem_wordsFrom {l w : List Char} (hw : w ∈ wordsFrom l) :
    ∀ c ∈ w, c.isAlphanum = true := by
  induction l generalizing w with
  | nil =>
    obtain rfl : w = [] := List.mem_singleton.1 hw
    simp
  | cons a rest ih =>
    unfold wordsFrom at hw
    split at hw
    · rename_i ha
      cases hrest : wordsFrom rest with
      | nil => exact absurd hrest (wordsFrom_ne_nil rest)
      | cons first others =>
        rw [hrest] at hw ih
        rcases List.mem_cons.1 hw with hfirst | hother
        · intro c hc
          rw [hfirst] at hc
          rcases List.mem_cons.1 hc with hca | hcf
          · exact hca ▸ ha
          · exact ih List.mem_cons_self c hcf
        · exact ih (List.mem_cons_of_mem _ hother)
    · split at hw
      · exact ih hw
      · rcases List.mem_cons.1 hw with hempty | hrest
        · rw [hempty]
          simp
        · exact ih hrest

/-! ## §2. Joining words. -/

/-- Words with underscores between them. -/
def joined (ws : List (List Char)) : List Char := ['_'].intercalate ws

theorem joined_cons (w : List Char) {ws : List (List Char)} (h : ws ≠ []) :
    joined (w :: ws) = w ++ '_' :: joined ws := by
  obtain ⟨v, vs, rfl⟩ := List.exists_cons_of_ne_nil h
  rfl

theorem joined_append {ws vs : List (List Char)} (hws : ws ≠ []) (hvs : vs ≠ []) :
    joined (ws ++ vs) = joined ws ++ '_' :: joined vs := by
  induction ws with
  | nil => exact absurd rfl hws
  | cons w rest ih =>
    by_cases hrest : rest = []
    · subst hrest
      rw [List.singleton_append, joined_cons w hvs]
      simp [joined]
    · rw [List.cons_append, joined_cons w (by simp [hvs]), ih hrest, joined_cons w hrest,
        List.append_assoc, List.cons_append]

theorem joined_modifyHead (c : Char) {ws : List (List Char)} (h : ws ≠ []) :
    joined (ws.modifyHead (c :: ·)) = c :: joined ws := by
  obtain ⟨w, rest, rfl⟩ := List.exists_cons_of_ne_nil h
  rw [List.modifyHead_cons]
  by_cases hrest : rest = []
  · subst hrest
    simp [joined]
  · rw [joined_cons _ hrest, joined_cons _ hrest, List.cons_append]

/-- There are words, and no underscores in them. -/
structure Legible (ws : List (List Char)) : Prop where
  ne_nil : ws ≠ []
  clean : ∀ w ∈ ws, '_' ∉ w

theorem Legible.cons {w : List Char} {ws : List (List Char)} (hw : '_' ∉ w) (h : Legible ws) :
    Legible (w :: ws) where
  ne_nil := List.cons_ne_nil _ _
  clean v hv := by
    rcases List.mem_cons.1 hv with hfirst | hrest
    · exact hfirst ▸ hw
    · exact h.clean v hrest

theorem Legible.append {ws vs : List (List Char)} (h : Legible ws) (h' : Legible vs) :
    Legible (ws ++ vs) where
  ne_nil := List.append_ne_nil_of_left_ne_nil h.ne_nil _
  clean v hv := by
    rcases List.mem_append.1 hv with hfront | hback
    · exact h.clean v hfront
    · exact h'.clean v hback

theorem legible_words (s : String) : Legible (words s) where
  ne_nil := words_ne_nil s
  clean w hw hmem := absurd (isAlphanum_of_mem_wordsFrom hw '_' hmem) (by decide)

theorem legible_classWords (type : Name) : Legible (classWords type) := by
  unfold classWords
  split
  · exact (legible_words _).cons List.not_mem_nil
  · exact legible_words _

/-- Words can be read back, as there are no underscores in them. -/
theorem joined_inj {ws vs : List (List Char)} (h : Legible ws) (h' : Legible vs) :
    joined ws = joined vs ↔ ws = vs := by
  constructor
  · intro hjoined
    have hsplit := congrArg (List.splitOn '_') hjoined
    rwa [joined, joined, List.splitOn_intercalate '_' h.clean h.ne_nil,
      List.splitOn_intercalate '_' h'.clean h'.ne_nil] at hsplit
  · intro heq
    rw [heq]

/-- A folded text is its words, joined by underscores.  In a run of other characters that has its
underscore already, the underscore is missing. -/
theorem foldFrom_eq (inRun : Bool) (l : List Char) :
    (if inRun && startsBetween l then ['_'] else []) ++ foldFrom inRun l = joined (wordsFrom l) := by
  induction l generalizing inRun with
  | nil => cases inRun <;> rfl
  | cons c rest ih =>
    unfold foldFrom wordsFrom
    by_cases hc : c.isAlphanum = true
    · have hstart : startsBetween (c :: rest) = false := by simp [startsBetween, hc]
      have hrest : foldFrom false rest = joined (wordsFrom rest) := ih false
      rw [if_pos hc, if_pos hc, joined_modifyHead c (wordsFrom_ne_nil rest), hstart, ← hrest]
      simp
    · have hstart : startsBetween (c :: rest) = true := by simp [startsBetween, hc]
      have hrest := ih true
      rw [if_neg hc, if_neg hc, hstart, Bool.and_true]
      -- Either way, one underscore stands for the whole run.
      have hrun : '_' :: foldFrom true rest =
          joined (if startsBetween rest then wordsFrom rest else [] :: wordsFrom rest) := by
        rw [Bool.true_and] at hrest
        split
        · rename_i hbetween
          rw [← hrest, hbetween]
          rfl
        · rename_i hbetween
          rw [joined_cons [] (wordsFrom_ne_nil rest), ← hrest, if_neg hbetween]
          rfl
      rw [← hrun]
      cases inRun <;> rfl

theorem toList_fold (s : String) : (fold s).toList = joined (words s) := by
  unfold fold words
  rw [String.toList_ofList]
  exact foldFrom_eq false s.toList

/-! ## §3. Spellings. -/

/-- The words of a text, with underscores between them. -/
def spelling (s : String) : String := "_".intercalate ((words s).map String.ofList)

/-- The variable of a kind: the kind, what it belongs to and its own name. -/
def spelled (kind owner name : String) : String :=
  kind ++ "_" ++ spelling owner ++ "_" ++ spelling name

/-- The variable of a pin: `I` and `O` tell inputs from outputs. -/
def pinName (p : Pin) : String := spelled (if p.output then "O" else "I") p.chip.text p.port

/-- The statement of a wire: `target = source;`. -/
def copyStatement (w : Wire) : String := pinName w.target ++ " = " ++ pinName w.source ++ ";"

theorem fold_eq_spelling (s : String) : fold s = spelling s := by
  rw [← String.toList_inj, toList_fold]
  unfold spelling joined
  rw [String.toList_intercalate, List.map_map]
  congr 1
  refine ((List.map_congr_left fun w _ => ?_).trans (List.map_id (words s))).symm
  exact String.toList_ofList

theorem variableOf_eq_spelled (kind owner name : String) :
    variableOf kind owner name = spelled kind owner name := by
  unfold variableOf spelled
  rw [fold_eq_spelling, fold_eq_spelling]

theorem input_eq_spelled (chip : String) : input chip = spelled "I" chip :=
  funext (variableOf_eq_spelled "I" chip)

theorem output_eq_spelled (chip : String) : output chip = spelled "O" chip :=
  funext (variableOf_eq_spelled "O" chip)

theorem constant_eq_spelled (chip : String) : constant chip = spelled "C" chip :=
  funext (variableOf_eq_spelled "C" chip)

theorem object_eq_spelling (chip : Name) : object chip = "CHIP_" ++ spelling chip.text := by
  unfold object
  rw [fold_eq_spelling]

theorem ofPin_eq_pinName (p : Pin) : ofPin p = pinName p := by
  unfold ofPin pinName
  split
  · exact congrFun (output_eq_spelled _) _
  · exact congrFun (input_eq_spelled _) _

theorem wireStatement_eq_copy : wireStatement = copyStatement := by
  funext w
  unfold wireStatement copyStatement
  rw [ofPin_eq_pinName, ofPin_eq_pinName]

example : copyStatement (.between ⟨⟨"half adder"⟩, true, "R"⟩ ⟨⟨"and-2"⟩, false, "A.0"⟩ 0)
    = "I_and_2_A_0 = O_half_adder_R;" := by decide

/-! ## §4. Identifiers. -/

/-- Texts fold to the same identifier exactly if they have the same words. -/
theorem fold_eq_iff {s t : String} : fold s = fold t ↔ words s = words t := by
  rw [← String.toList_inj, toList_fold, toList_fold]
  exact joined_inj (legible_words s) (legible_words t)

theorem toList_variableOf (kind chip name : String) :
    (variableOf kind chip name).toList
      = joined (kind.toList :: (words chip ++ words name)) := by
  have hparts : words chip ++ words name ≠ [] := by simp [words_ne_nil]
  unfold variableOf
  rw [joined_cons _ hparts, joined_append (words_ne_nil chip) (words_ne_nil name)]
  simp [toList_fold]

/-- Variables are the same exactly if they are of one kind and consist of the same words. -/
theorem variableOf_eq_iff {kind kind' chip chip' name name' : String} (hkind : '_' ∉ kind.toList)
    (hkind' : '_' ∉ kind'.toList) :
    variableOf kind chip name = variableOf kind' chip' name' ↔
      kind = kind' ∧ words chip ++ words name = words chip' ++ words name' := by
  have hlegible : ∀ {k : String} (c n : String), '_' ∉ k.toList →
      Legible (k.toList :: (words c ++ words n)) := by
    intro k c n hk
    exact ((legible_words c).append (legible_words n)).cons hk
  rw [← String.toList_inj, toList_variableOf, toList_variableOf,
    joined_inj (hlegible chip name hkind) (hlegible chip' name' hkind'), List.cons.injEq,
    String.toList_inj]

/-- Pins have the same variable exactly if they are on the same side and named by the same words. -/
theorem ofPin_eq_iff {p q : Pin} : ofPin p = ofPin q ↔
    p.output = q.output ∧
      words p.chip.text ++ words p.port = words q.chip.text ++ words q.port := by
  obtain ⟨chip, output, port⟩ := p
  obtain ⟨chip', output', port'⟩ := q
  cases output <;> cases output' <;>
    simp [ofPin, input, Identifier.output, variableOf_eq_iff]

theorem constant_eq_iff {chip chip' key key' : String} :
    constant chip key = constant chip' key' ↔
      words chip ++ words key = words chip' ++ words key' := by
  unfold constant
  rw [variableOf_eq_iff (by decide) (by decide)]
  simp

theorem object_eq_iff {chip chip' : Name} :
    object chip = object chip' ↔ words chip.text = words chip'.text := by
  unfold object
  rw [← fold_eq_iff]
  simp

theorem toList_className (type : Name) :
    (className type).toList = joined (classWords type) ++ "Chip".toList := by
  unfold className classWords
  dsimp only
  split
  · rw [joined_cons [] (words_ne_nil _)]
    simp [toList_fold]
  · simp [toList_fold]

/-- Classes have the same name exactly if their types have the same words, or if only one of them
begins with a digit and the other one has something else in front of it. -/
theorem className_eq_iff {type type' : Name} :
    className type = className type' ↔ classWords type = classWords type' := by
  rw [← String.toList_inj, toList_className, toList_className, List.append_cancel_right_eq]
  exact joined_inj (legible_classWords type) (legible_classWords type')

/-! ## §5. Single words. -/

/-- Are there only letters and digits in the text? -/
def isWord (s : String) : Bool := s.toList.all Char.isAlphanum

theorem words_of_isWord {s : String} (h : isWord s = true) : words s = [s.toList] := by
  unfold isWord at h
  unfold words
  rw [List.all_eq_true] at h
  generalize s.toList = l at h
  induction l with
  | nil => rfl
  | cons c rest ih =>
    unfold wordsFrom
    rw [if_pos (h c List.mem_cons_self), ih fun d hd => h d (List.mem_cons_of_mem _ hd)]
    rfl

/-- If the second parts are single words, it is known where they begin. -/
theorem words_append_inj {chip chip' name name' : String} (hname : isWord name = true)
    (hname' : isWord name' = true) (h : words chip ++ words name = words chip' ++ words name') :
    words chip = words chip' ∧ name = name' := by
  rw [words_of_isWord hname, words_of_isWord hname'] at h
  obtain ⟨hchip, hlast⟩ := List.append_inj' h rfl
  exact ⟨hchip, String.toList_inj.1 (List.singleton_inj.1 hlast)⟩

end LogicBoard.Identifier
