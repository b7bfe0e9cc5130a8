/-
  LogicBoard.Proofs.Text.Case
  ────────────────────────────────
  **A CASE IS MADE ONCE.**

  What a case mapping makes of a character it keeps: no image of a character
  has another image.  The tables say so, run by run, and this is the only
  fact about letters that is taken from them.  So a text that was brought
  to upper or lower case stays as it is when that is done again, no blank
  comes up at its ends, and no dot or slash in between.

  Main statements:
    • `CaseMap.image_cases` — images of characters are kept,
    • `upper_upper`, `lower_lower` — casing twice is casing once,
    • `trim_upper_trim` — the ends of a trimmed text are not blank after it
      was brought to upper case,
    • `upper_ne_empty`, `lower_ne_empty` — no text becomes empty,
    • `not_mem_upper`, `not_mem_lower` — texts stay without dots or slashes.
-/
import Mathlib.Data.List.DropRight
import LogicBoard.Text.Blank
import LogicBoard.Text.Case

namespace LogicBoard.Text

/-! ## §1. What the tables say. -/

/-- A case mapping: what it makes of an ASCII character, the range of letters for which that is
another one, the range of the images, and the tables for all other characters. -/
structure CaseMap where
  ascii : Char → Char
  letters : Nat × Nat
  images : Nat × Nat
  runs : List CaseRun
  expansions : List (Nat × List Nat)

def upperMap : CaseMap := ⟨Char.toUpper, (97, 122), (65, 90), upperRuns, upperExpansions⟩

def lowerMap : CaseMap := ⟨Char.toLower, (65, 90), (97, 122), lowerRuns, lowerExpansions⟩

namespace CaseMap

/-- The image of a character. -/
def image (m : CaseMap) (c : Char) : List Char :=
  if c.toNat < 128 then [m.ascii c] else caseImage m.runs m.expansions c

/-- Does the range hold none of the code points `first, …, last`? -/
def isApart (first last : Nat) (range : Nat × Nat) : Bool :=
  Nat.blt last range.1 || Nat.blt range.2 first

/-- Do the code points `first, first + step, …, last` have no images but themselves, and are they
those of characters other than blanks, dots and slashes?  Of two runs that overlap, one may have the even
code points and the other one the odd ones. -/
def keeps (m : CaseMap) (first last step : Nat) : Bool :=
  isApart first last (0xD800, 0xDFFF) && Nat.blt last 0x110000 && isApart first last m.letters &&
    blankRanges.all (isApart first last) && isApart first last (0x2E, 0x2F) &&
    (m.expansions.all fun e => isApart first last (e.1, e.1)) &&
    m.runs.all fun r => isApart first last (r.first, r.last) ||
      (Nat.beq first last || Nat.beq step 2) && Nat.beq r.step 2 &&
        !Nat.beq (first % 2) (r.first % 2)

/-- Are all images of the tables kept, and is no image empty? -/
def keepsImages (m : CaseMap) : Bool :=
  (m.expansions.all fun e => !e.2.isEmpty && e.2.all fun n => m.keeps n n 1) &&
    m.runs.all fun r => -(r.first : Int) ≤ r.shift && (r.step == 1 || r.step == 2) &&
      m.keeps (r.first + r.shift).toNat (r.last + r.shift).toNat r.step

/-- All images of a case mapping are kept. -/
structure IsSettled (m : CaseMap) : Prop where
  ascii_kept : ∀ n < 128, n < m.letters.1 ∨ m.letters.2 < n → m.ascii (.ofNat n) = .ofNat n
  ascii_images : ∀ n < 128, m.ascii (.ofNat n) = .ofNat n ∨
    m.images.1 ≤ (m.ascii (.ofNat n)).toNat ∧ (m.ascii (.ofNat n)).toNat ≤ m.images.2
  images_kept : m.keeps m.images.1 m.images.2 1 = true
  tables : m.keepsImages = true

theorem isSettled_upper : upperMap.IsSettled where
  ascii_kept := by decide
  ascii_images := by decide
  images_kept := by decide
  tables := by decide +kernel

theorem isSettled_lower : lowerMap.IsSettled where
  ascii_kept := by decide
  ascii_images := by decide
  images_kept := by decide
  tables := by decide +kernel

/-! ## §2. Images of characters. -/

/-- The code point stands for a character that has no image but itself and is neither a blank nor a
dot or a slash. -/
structure Kept (m : CaseMap) (n : Nat) : Prop where
  valid : n.isValidChar
  letters : n < m.letters.1 ∨ m.letters.2 < n
  expansions : ∀ e ∈ m.expansions, e.1 ≠ n
  runs : ∀ r ∈ m.runs, r.covers n = false
  blanks : ∀ r ∈ blankRanges, n < r.1 ∨ r.2 < n
  signs : n < 0x2E ∨ 0x2F < n

theorem isApart_iff {first last : Nat} {range : Nat × Nat} :
    isApart first last range = true ↔ last < range.1 ∨ range.2 < first := by
  simp [isApart, Nat.blt_eq]

/-- What is checked of a run holds of all its code points. -/
theorem kept_of_keeps {m : CaseMap} {first last step n : Nat} (h : m.keeps first last step = true)
    (hfirst : first ≤ n) (hlast : n ≤ last) (hstep : (n - first) % step = 0) : m.Kept n := by
  unfold keeps at h
  simp only [Bool.and_eq_true, List.all_eq_true, isApart_iff, Nat.blt_eq] at h
  obtain ⟨⟨⟨⟨⟨⟨hsurrogates, hbound⟩, hletters⟩, hblanks⟩, hsigns⟩, hexpansions⟩, hruns⟩ := h
  constructor
  case valid =>
    show n < 0xD800 ∨ 0xDFFF < n ∧ n < 0x110000
    omega
  case letters => omega
  case expansions =>
    intro e he
    have := hexpansions e he
    omega
  case blanks =>
    intro r hr
    have := hblanks r hr
    omega
  case signs => omega
  case runs =>
    intro r hr
    have hapart := hruns r hr
    simp only [Bool.or_eq_true, Bool.and_eq_true, isApart_iff, Nat.beq_eq, Bool.not_eq_true',
      Bool.eq_false_iff, ne_eq] at hapart
    simp only [CaseRun.covers, Bool.and_eq_false_iff, decide_eq_false_iff_not, beq_eq_false_iff_ne]
    rcases hapart with hapart | ⟨⟨hsingle, hstep'⟩, hparity⟩
    · omega
    · -- The code point is as even or odd as the first one, which those of the run are not.
      rw [hstep']
      rcases hsingle with rfl | rfl
      · omega
      · omega

theorem toNat_ofNat {n : Nat} (h : n.isValidChar) : (Char.ofNat n).toNat = n := by
  unfold Char.ofNat
  rw [dif_pos h]
  rfl

theorem Kept.ofNat {m : CaseMap} {n : Nat} (h : m.Kept n) : m.Kept (Char.ofNat n).toNat := by
  rw [toNat_ofNat h.valid]
  exact h

theorem Kept.not_isBlank {m : CaseMap} {c : Char} (h : m.Kept c.toNat) : isBlank c = false := by
  unfold isBlank
  rw [List.any_eq_false]
  intro r hr
  have := h.blanks r hr
  simp
  omega

theorem Kept.ne_dot {m : CaseMap} {c : Char} (h : m.Kept c.toNat) : c ≠ '.' := by
  rintro rfl
  exact absurd h.signs (by decide)

theorem Kept.ne_slash {m : CaseMap} {c : Char} (h : m.Kept c.toNat) : c ≠ '/' := by
  rintro rfl
  exact absurd h.signs (by decide)

/-- A character that is kept has no image but itself. -/
theorem Kept.image_eq {m : CaseMap} (hm : m.IsSettled) {c : Char} (h : m.Kept c.toNat) :
    m.image c = [c] := by
  unfold image
  split
  · rename_i hascii
    have hsame := hm.ascii_kept c.toNat hascii h.letters
    rw [Char.ofNat_toNat] at hsame
    rw [hsame]
  · -- It is in neither table.
    have hexpansions : m.expansions.lookup c.toNat = none := by
      rw [List.lookup_eq_none_iff]
      intro e he
      simpa using (h.expansions e he).symm
    have hruns : m.runs.find? (·.covers c.toNat) = none := by
      rw [List.find?_eq_none]
      intro r hr
      simp [h.runs r hr]
    unfold caseImage
    rw [hexpansions, hruns]

/-- The image of a character is the character itself, or it is kept. -/
theorem image_cases {m : CaseMap} (hm : m.IsSettled) (c : Char) :
    m.image c = [c] ∨ m.image c ≠ [] ∧ ∀ d ∈ m.image c, m.Kept d.toNat := by
  have htables := hm.tables
  unfold keepsImages at htables
  simp only [Bool.and_eq_true, List.all_eq_true, Bool.not_eq_true', Bool.or_eq_true, beq_iff_eq,
    decide_eq_true_eq, List.isEmpty_eq_false_iff] at htables
  obtain ⟨hexpansions, hruns⟩ := htables
  unfold image caseImage
  split
  · rename_i hascii
    have hcase := hm.ascii_images c.toNat hascii
    rw [Char.ofNat_toNat] at hcase
    refine hcase.imp (fun hsame => by rw [hsame]) fun hletter => ⟨by simp, ?_⟩
    intro d hd
    obtain rfl := List.mem_singleton.1 hd
    exact kept_of_keeps hm.images_kept hletter.1 hletter.2 (by omega)
  · split
    · -- Several characters stand in place of the letter.
      rename_i image himage
      obtain ⟨l₁, l₂, hlist, -⟩ := List.lookup_eq_some_iff.1 himage
      obtain ⟨hne, hkept⟩ := hexpansions (c.toNat, image) (by rw [hlist]; simp)
      right
      refine ⟨by simpa using hne, ?_⟩
      intro d hd
      obtain ⟨n, hn, rfl⟩ := List.mem_map.1 hd
      exact (kept_of_keeps (hkept n hn) (Nat.le_refl n) (Nat.le_refl n) (by omega)).ofNat
    · split
      · -- One character does, and it is in the image of its run.
        rename_i run hrun
        right
        refine ⟨by simp, ?_⟩
        intro d hd
        obtain rfl := List.mem_singleton.1 hd
        obtain ⟨⟨hshift, hstep⟩, hkept⟩ := hruns run (List.mem_of_find?_eq_some hrun)
        have hcovers : run.covers c.toNat = true := by simpa using List.find?_some hrun
        simp only [CaseRun.covers, Bool.and_eq_true, decide_eq_true_eq, beq_iff_eq] at hcovers
        have hsame : (c.toNat + run.shift).toNat - (run.first + run.shift).toNat
            = c.toNat - run.first := by omega
        exact (kept_of_keeps hkept (by omega) (by omega) (hsame ▸ hcovers.2)).ofNat
      · exact Or.inl rfl

/-- What is made of a character has no other image. -/
theorem image_image {m : CaseMap} (hm : m.IsSettled) {c d : Char} (hd : d ∈ m.image c) :
    m.image d = [d] := by
  rcases image_cases hm c with hsame | ⟨-, hkept⟩
  · rw [hsame] at hd
    obtain rfl := List.mem_singleton.1 hd
    exact hsame
  · exact (hkept d hd).image_eq hm

end CaseMap

theorem upperChar_eq (c : Char) : upperChar c = upperMap.image c := rfl

theorem lowerChar_eq (c : Char) : lowerChar c = lowerMap.image c := rfl

/-! ## §3. Whole texts. -/

theorem flatMap_singleton {f : Char → List Char} {cs : List Char} (h : ∀ c ∈ cs, f c = [c]) :
    cs.flatMap f = cs := by
  induction cs with
  | nil => rfl
  | cons c rest ih =>
    obtain ⟨hc, hrest⟩ := List.forall_mem_cons.1 h
    rw [List.flatMap_cons, hc, ih hrest]
    rfl

theorem upperChars_upperChars (cs : List Char) : upperChars (upperChars cs) = upperChars cs := by
  refine flatMap_singleton fun d hd => ?_
  obtain ⟨c, -, hdc⟩ := List.mem_flatMap.1 hd
  exact CaseMap.image_image CaseMap.isSettled_upper hdc

/-- Upper case is made once. -/
theorem upper_upper (s : String) : upper (upper s) = upper s := by
  unfold upper
  rw [String.toList_ofList, upperChars_upperChars]

/-- The character is no capital sigma, and it is its own lower case. -/
def IsLower (c : Char) : Prop := c ≠ 'Σ' ∧ lowerChar c = [c]

theorem isLower_of_kept {c : Char} (h : lowerMap.Kept c.toNat) : IsLower c := by
  refine ⟨?_, h.image_eq CaseMap.isSettled_lower⟩
  rintro rfl
  -- A capital sigma is in the table.
  have hsigma : lowerRuns.any (·.covers 0x3A3) = true := by decide
  obtain ⟨r, hr, hcovers⟩ := List.any_eq_true.1 hsigma
  have hnot : r.covers 0x3A3 = false := h.runs r hr
  exact absurd (hnot.symm.trans hcovers) Bool.false_ne_true

theorem isLower_lowerSigma (before after : List Char) : IsLower (lowerSigma before after) := by
  have hkeeps : lowerMap.keeps 0x3C2 0x3C3 1 = true := by decide
  apply isLower_of_kept
  unfold lowerSigma
  split
  · exact CaseMap.kept_of_keeps hkeeps (by decide) (by decide) (by decide)
  · exact CaseMap.kept_of_keeps hkeeps (by decide) (by decide) (by decide)

theorem isLower_of_mem {c d : Char} (hc : c ≠ 'Σ') (hd : d ∈ lowerChar c) : IsLower d := by
  rcases CaseMap.image_cases CaseMap.isSettled_lower c with hsame | ⟨-, hkept⟩
  · rw [lowerChar_eq, hsame] at hd
    obtain rfl := List.mem_singleton.1 hd
    exact ⟨hc, hsame⟩
  · exact isLower_of_kept (hkept d hd)

theorem isLower_of_mem_lowerCharsAfter {cs : List Char} :
    ∀ {before : List Char} {d : Char}, d ∈ lowerCharsAfter before cs → IsLower d := by
  induction cs with
  | nil =>
    intro before d hd
    exact absurd hd List.not_mem_nil
  | cons c rest ih =>
    intro before d hd
    unfold lowerCharsAfter at hd
    rcases List.mem_append.1 hd with hd | hd
    · split at hd
      · rw [List.mem_singleton.1 hd]
        exact isLower_lowerSigma before rest
      · rename_i hc
        exact isLower_of_mem hc hd
    · exact ih hd

theorem lowerCharsAfter_of_isLower {cs : List Char} (h : ∀ c ∈ cs, IsLower c) :
    ∀ before, lowerCharsAfter before cs = cs := by
  induction cs with
  | nil =>
    intro before
    rfl
  | cons c rest ih =>
    intro before
    obtain ⟨⟨hsigma, hc⟩, hrest⟩ := List.forall_mem_cons.1 h
    unfold lowerCharsAfter
    rw [if_neg hsigma, hc, ih hrest]
    rfl

/-- What is picked out of a text in lower case is in lower case. -/
theorem lower_of_mem {s : String} {cs : List Char} (h : ∀ c ∈ cs, c ∈ (lower s).toList) :
    lower (String.ofList cs) = String.ofList cs := by
  unfold lower lowerChars at h ⊢
  rw [String.toList_ofList] at h ⊢
  rw [lowerCharsAfter_of_isLower fun c hc => isLower_of_mem_lowerCharsAfter (h c hc)]

/-- Lower case is made once. -/
theorem lower_lower (s : String) : lower (lower s) = lower s := by
  have hpicked : lower (String.ofList (lower s).toList) = String.ofList (lower s).toList :=
    lower_of_mem fun _ hc => hc
  rw [String.ofList_toList] at hpicked
  exact hpicked

/-! ## §4. The ends of a text. -/

/-- The text neither begins nor ends with a blank. -/
structure IsTrimmed (cs : List Char) : Prop where
  head : ∀ c, cs.head? = some c → isBlank c = false
  last : ∀ c, cs.getLast? = some c → isBlank c = false

theorem dropWhile_isBlank {cs : List Char} (h : ∀ c, cs.head? = some c → isBlank c = false) :
    cs.dropWhile isBlank = cs := by
  cases cs with
  | nil => rfl
  | cons c rest => rw [List.dropWhile_cons_of_neg (by simp [h c rfl])]

theorem not_isBlank_of_dropWhile {cs : List Char} {c : Char}
    (h : (cs.dropWhile isBlank).head? = some c) : isBlank c = false := by
  have hnot := List.head?_dropWhile_not isBlank cs
  rw [h] at hnot
  exact hnot

/-- Trimming leaves a trimmed text as it is. -/
theorem IsTrimmed.trimChars_eq {cs : List Char} (h : IsTrimmed cs) : trimChars cs = cs := by
  have hreverse : ∀ c, cs.reverse.head? = some c → isBlank c = false := by
    intro c hc
    rw [List.head?_reverse] at hc
    exact h.last c hc
  unfold trimChars trimEndChars trimStartChars
  rw [dropWhile_isBlank h.head, dropWhile_isBlank hreverse, List.reverse_reverse]

theorem isTrimmed_trimChars (cs : List Char) : IsTrimmed (trimChars cs) where
  head := by
    intro c hc
    -- What is taken off the end leaves the beginning, or nothing at all.
    obtain ⟨rest, hrest⟩ := List.rdropWhile_prefix isBlank (l := trimStartChars cs)
    have hhead : (cs.dropWhile isBlank).head? = some c := by
      show (trimStartChars cs).head? = some c
      rw [← hrest, List.head?_append,
        show (List.rdropWhile isBlank (trimStartChars cs)).head? = some c from hc]
      rfl
    exact not_isBlank_of_dropWhile hhead
  last := by
    intro c hc
    unfold trimChars trimEndChars at hc
    rw [List.getLast?_reverse] at hc
    exact not_isBlank_of_dropWhile hc

/-- Upper case brings up no blanks. -/
theorem not_isBlank_upperChar {c d : Char} (hc : isBlank c = false) (hd : d ∈ upperChar c) :
    isBlank d = false := by
  rcases CaseMap.image_cases CaseMap.isSettled_upper c with hsame | ⟨-, hkept⟩
  · rw [upperChar_eq, hsame] at hd
    rw [List.mem_singleton.1 hd, hc]
  · exact (hkept d hd).not_isBlank

theorem upperChar_ne_nil (c : Char) : upperChar c ≠ [] := by
  rcases CaseMap.image_cases CaseMap.isSettled_upper c with hsame | ⟨hne, -⟩
  · rw [upperChar_eq, hsame]
    simp
  · exact hne

theorem IsTrimmed.upperChars {cs : List Char} (h : IsTrimmed cs) : IsTrimmed (upperChars cs) where
  head := by
    intro d hd
    cases cs with
    | nil => exact absurd hd (by simp [Text.upperChars])
    | cons c rest =>
      unfold Text.upperChars at hd
      rw [List.flatMap_cons, List.head?_append_of_ne_nil _ (upperChar_ne_nil c)] at hd
      exact not_isBlank_upperChar (h.head c rfl) (List.mem_of_mem_head? hd)
  last := by
    intro d hd
    rcases List.eq_nil_or_concat cs with rfl | ⟨rest, c, rfl⟩
    · exact absurd hd (by simp [Text.upperChars])
    · unfold Text.upperChars at hd
      rw [List.concat_eq_append, List.flatMap_append, List.flatMap_singleton,
        List.getLast?_append_of_ne_nil _ (upperChar_ne_nil c)] at hd
      exact not_isBlank_upperChar (h.last c (by simp)) (List.mem_of_mem_getLast? hd)

theorem trim_upper_trim (s : String) : trim (upper (trim s)) = upper (trim s) := by
  unfold upper trim
  rw [String.toList_ofList, String.toList_ofList,
    (isTrimmed_trimChars s.toList).upperChars.trimChars_eq]

/-! ## §5. Texts without dots. -/

theorem ofList_ne_empty {cs : List Char} (h : cs ≠ []) : String.ofList cs ≠ "" := by
  intro hempty
  apply h
  rw [← String.toList_ofList (l := cs), hempty]
  rfl

theorem toList_ne_nil {s : String} (h : s ≠ "") : s.toList ≠ [] := by
  intro hnil
  apply h
  rw [← String.ofList_toList (s := s), hnil]

theorem upper_ne_empty {s : String} (h : s ≠ "") : upper s ≠ "" := by
  apply ofList_ne_empty
  obtain ⟨c, rest, hcs⟩ := List.exists_cons_of_ne_nil (toList_ne_nil h)
  rw [hcs]
  exact List.append_ne_nil_of_left_ne_nil (upperChar_ne_nil c) _

theorem lowerChar_ne_nil (c : Char) : lowerChar c ≠ [] := by
  rcases CaseMap.image_cases CaseMap.isSettled_lower c with hsame | ⟨hne, -⟩
  · rw [lowerChar_eq, hsame]
    simp
  · exact hne

theorem lower_ne_empty {s : String} (h : s ≠ "") : lower s ≠ "" := by
  apply ofList_ne_empty
  obtain ⟨c, rest, hcs⟩ := List.exists_cons_of_ne_nil (toList_ne_nil h)
  rw [hcs]
  unfold lowerChars lowerCharsAfter
  apply List.append_ne_nil_of_left_ne_nil
  split
  · exact List.cons_ne_nil _ _
  · exact lowerChar_ne_nil c

/-- Upper case brings up no dots. -/
theorem not_mem_upper {s : String} (h : '.' ∉ s.toList) : '.' ∉ (upper s).toList := by
  intro hdot
  unfold upper upperChars at hdot
  rw [String.toList_ofList] at hdot
  obtain ⟨c, hc, hcdot⟩ := List.mem_flatMap.1 hdot
  rcases CaseMap.image_cases CaseMap.isSettled_upper c with hsame | ⟨-, hkept⟩
  · rw [upperChar_eq, hsame, List.mem_singleton] at hcdot
    exact h (hcdot ▸ hc)
  · exact (hkept '.' hcdot).ne_dot rfl

theorem mem_of_slash_mem_lowerCharsAfter {cs : List Char} :
    ∀ {before : List Char}, '/' ∈ lowerCharsAfter before cs → '/' ∈ cs := by
  induction cs with
  | nil =>
    intro before h
    exact absurd h List.not_mem_nil
  | cons c rest ih =>
    intro before h
    unfold lowerCharsAfter at h
    rcases List.mem_append.1 h with h | h
    · split at h
      · -- A sigma is no slash, whichever of its two forms it has.
        unfold lowerSigma at h
        split at h <;> exact absurd (List.mem_singleton.1 h) (by decide)
      · rcases CaseMap.image_cases CaseMap.isSettled_lower c with hsame | ⟨-, hkept⟩
        · rw [lowerChar_eq, hsame, List.mem_singleton] at h
          exact h ▸ List.mem_cons_self
        · exact absurd rfl (hkept '/' h).ne_slash
    · exact List.mem_cons_of_mem c (ih h)

/-- Lower case brings up no slashes. -/
theorem not_mem_lower {s : String} (h : '/' ∉ s.toList) : '/' ∉ (lower s).toList := by
  unfold lower lowerChars
  rw [String.toList_ofList]
  exact mt mem_of_slash_mem_lowerCharsAfter h

end LogicBoard.Text
