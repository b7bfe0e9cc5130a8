/-
  LogicBoard.Proofs.Design.Pin
  ────────────────────────────────
  **REFERENCES TO PINS.**

  A reference is a chip, a word for a side and a port, with dots in between.
  The port has no dots and neither has the word, so the last two dots of a
  text are the ones at which it is to be cut, however many there are in the
  name of the chip.  What is read is folded: the chip to lower case, the port
  to upper case.  Neither makes a name empty, and no dot comes up in a port,
  so what is printed of a pin is read as this pin again.

  Main statements:
    • `splitLast?_eq_some_iff` — where a text is cut,
    • `ofText?_eq_some_iff` — the texts that refer to a pin,
    • `IsReferable.ofText?_text`, `isReferable_of_ofText?` — the pins that are
      referred to by their own texts are the ones that are read at all,
    • `ofText?_grammar` — both directions.
-/
import LogicBoard.Design.Pin
import LogicBoard.Proofs.Record.RoundTrip

namespace LogicBoard.Pin

/-! ## §1. Cutting at the last separator. -/

theorem splitLast?_eq_none_iff {sep : Char} {cs : List Char} :
    splitLast? sep cs = none ↔ sep ∉ cs := by
  induction cs with
  | nil => simp [splitLast?]
  | cons c rest ih =>
    unfold splitLast?
    cases hrest : splitLast? sep rest with
    | none =>
      have hnot := ih.1 hrest
      by_cases hc : c = sep
      · simp [hc]
      · simp [hc, hnot, Ne.symm hc]
    | some cut =>
      have hmem : sep ∈ rest := by
        by_contra hnot
        exact absurd ((ih.2 hnot).symm.trans hrest) (by simp)
      simp [hmem]

/-- What stands behind the last separator is the part without separators. -/
theorem splitLast?_append {sep : Char} {back : List Char} (h : sep ∉ back) (front : List Char) :
    splitLast? sep (front ++ sep :: back) = some (front, back) := by
  induction front with
  | nil =>
    show splitLast? sep (sep :: back) = some ([], back)
    unfold splitLast?
    rw [splitLast?_eq_none_iff.2 h, if_pos rfl]
  | cons c front ih =>
    rw [List.cons_append]
    unfold splitLast?
    rw [ih]

theorem splitLast?_eq_some_iff {sep : Char} {cs front back : List Char} :
    splitLast? sep cs = some (front, back) ↔ cs = front ++ sep :: back ∧ sep ∉ back := by
  constructor
  · intro h
    induction cs generalizing front with
    | nil => exact absurd h (by simp [splitLast?])
    | cons c rest ih =>
      unfold splitLast? at h
      cases hrest : splitLast? sep rest with
      | none =>
        rw [hrest] at h
        by_cases hc : c = sep
        · rw [if_pos hc] at h
          obtain ⟨rfl, rfl⟩ := Prod.mk.inj (Option.some.inj h)
          exact ⟨by rw [hc]; rfl, splitLast?_eq_none_iff.1 hrest⟩
        · exact absurd h (by simp [hc])
      | some cut =>
        rw [hrest] at h
        obtain ⟨rfl, rfl⟩ := Prod.mk.inj (Option.some.inj h)
        obtain ⟨hcut, hnot⟩ := ih hrest
        exact ⟨by rw [hcut]; rfl, hnot⟩
  · rintro ⟨rfl, hnot⟩
    exact splitLast?_append hnot front

/-! ## §2. Sides. -/

/-- The words for a side of a chip. -/
def sideWords (output : Bool) : List String :=
  if output then ["out", "o", "output"] else ["in", "i", "input"]

/-- The word means the side, whichever of its ASCII letters are capitals. -/
def MeansSide (word : String) (output : Bool) : Prop :=
  String.ofList (word.toList.map Char.toLower) ∈ sideWords output

theorem side?_eq_some_iff {word : String} {output : Bool} :
    side? word.toList = some output ↔ MeansSide word output := by
  unfold side? MeansSide sideWords
  cases output
  · simp only [Bool.or_eq_true, decide_eq_true_eq, Bool.false_eq_true, if_false, List.mem_cons,
      List.not_mem_nil, or_false]
    split
    · rename_i hin
      simpa [or_assoc] using hin
    · rename_i hin
      rw [or_assoc] at hin
      split <;> simp [hin]
  · simp only [Bool.or_eq_true, decide_eq_true_eq, if_true, List.mem_cons, List.not_mem_nil,
      or_false]
    split
    · rename_i hin
      rcases hin with (hin | hin) | hin <;> simp [hin]
    · split
      · rename_i hout
        simpa [or_assoc] using hout
      · rename_i hout
        rw [or_assoc] at hout
        simp [hout]

/-- No word for a side has a dot in it. -/
theorem MeansSide.not_mem {word : String} {output : Bool} (h : MeansSide word output) :
    '.' ∉ word.toList := by
  intro hdot
  have hlower : '.' ∈ (String.ofList (word.toList.map Char.toLower)).toList := by
    rw [String.toList_ofList]
    exact List.mem_map.2 ⟨'.', hdot, rfl⟩
  have hwords : ∀ output, ∀ w ∈ sideWords output, '.' ∉ w.toList := by decide
  exact hwords output _ h hlower

theorem meansSide_sideText (output : Bool) : MeansSide (sideText output) output := by
  unfold MeansSide
  cases output <;> decide

/-! ## §3. References. -/

/-- The text is made of a chip, a word for a side and a port without dots, and these are the ones
of the pin. -/
def Refers (s : String) (p : Pin) : Prop :=
  ∃ chip side port : String, s = chip ++ "." ++ side ++ "." ++ port ∧ chip ≠ "" ∧ port ≠ "" ∧
    '.' ∉ port.toList ∧ MeansSide side p.output ∧ p = ofPort (.ofText chip) p.output port

theorem toList_reference (chip side port : String) :
    (chip ++ "." ++ side ++ "." ++ port).toList
      = (chip.toList ++ '.' :: side.toList) ++ '.' :: port.toList := by
  simp

/-- A text is read as a pin exactly if it refers to the pin. -/
theorem ofText?_eq_some_iff {s : String} {p : Pin} : ofText? s = some p ↔ Refers s p := by
  constructor
  · intro h
    obtain ⟨⟨front, port⟩, hfront, hrest⟩ := Option.bind_eq_some_iff.1 h
    obtain ⟨⟨chip, side⟩, hside, hrest⟩ := Option.bind_eq_some_iff.1 hrest
    obtain ⟨output, hword, hrest⟩ := Option.bind_eq_some_iff.1 hrest
    obtain ⟨hs, hport⟩ := splitLast?_eq_some_iff.1 hfront
    obtain ⟨hcut, -⟩ := splitLast?_eq_some_iff.1 hside
    rw [hcut] at hs
    by_cases hempty : chip = [] ∨ port = []
    · exact absurd hrest (by simp [hempty])
    · obtain ⟨hchip, hne⟩ := not_or.1 hempty
      have hp : ofPort (.ofText (String.ofList chip)) output (String.ofList port) = p := by
        simpa [hchip, hne] using hrest
      refine ⟨String.ofList chip, String.ofList side, String.ofList port, ?_,
        Text.ofList_ne_empty hchip, Text.ofList_ne_empty hne, by rwa [String.toList_ofList], ?_, ?_⟩
      · apply String.toList_inj.1
        rw [hs, toList_reference, String.toList_ofList, String.toList_ofList, String.toList_ofList]
      · rw [← hp]
        apply side?_eq_some_iff.1
        rw [String.toList_ofList]
        exact hword
      · rw [← hp]
        rfl
  · rintro ⟨chip, side, port, rfl, hchip, hport, hdot, hside, hp⟩
    have hfront : splitLast? '.' (chip ++ "." ++ side ++ "." ++ port).toList
        = some (chip.toList ++ '.' :: side.toList, port.toList) := by
      rw [toList_reference]
      exact splitLast?_append hdot _
    unfold ofText?
    rw [hfront]
    show (splitLast? '.' (chip.toList ++ '.' :: side.toList)).bind _ = some p
    rw [splitLast?_append hside.not_mem]
    show (side? side.toList).bind _ = some p
    rw [side?_eq_some_iff.2 hside]
    show (if (chip.toList.isEmpty || port.toList.isEmpty) = true then none
      else some (ofPort (.ofText (String.ofList chip.toList)) p.output
        (String.ofList port.toList))) = some p
    rw [if_neg (by simp [hchip, hport]), String.ofList_toList, String.ofList_toList, ← hp]

/-! ## §4. The pins that are read. -/

/-- A pin with the names of a chip and a port as they are kept, of which the port has no dots. -/
structure IsReferable (p : Pin) : Prop where
  folded : p.chip.IsFolded
  chip : p.chip.text ≠ ""
  port : p.port ≠ ""
  dotless : '.' ∉ p.port.toList
  upper : Text.upper p.port = p.port

/-- Folding leaves the names of what is read in order. -/
theorem isReferable_of_ofText? {s : String} {p : Pin} (h : ofText? s = some p) :
    p.IsReferable := by
  obtain ⟨chip, side, port, -, hchip, hport, hdot, -, hp⟩ := ofText?_eq_some_iff.1 h
  rw [hp]
  constructor
  case folded => exact ⟨chip, rfl⟩
  case chip => exact Text.lower_ne_empty hchip
  case port => exact Text.upper_ne_empty hport
  case dotless => exact Text.not_mem_upper hdot
  case upper => exact Text.upper_upper port

theorem IsReferable.ofText?_text {p : Pin} (h : p.IsReferable) : ofText? p.text = some p := by
  refine ofText?_eq_some_iff.2 ⟨p.chip.text, sideText p.output, p.port, rfl, h.chip, h.port,
    h.dotless, meansSide_sideText p.output, ?_⟩
  unfold ofPort
  rw [h.folded.ofText_text, h.upper]

/-- A text is read as a pin exactly if it refers to the pin; what is printed of a pin that was read
is read as the pin again; and the pins of which this holds are the ones with a chip, and with a port
in upper case and without dots. -/
theorem ofText?_grammar (s : String) (p : Pin) :
    (ofText? s = some p ↔ Refers s p) ∧ (ofText? s = some p → ofText? p.text = some p) ∧
      (ofText? p.text = some p ↔ p.IsReferable) :=
  ⟨ofText?_eq_some_iff, fun h => (isReferable_of_ofText? h).ofText?_text,
    isReferable_of_ofText?, IsReferable.ofText?_text⟩

/-- A chip with a name that looks like a pin itself. -/
theorem ofText?_grammar_nested :
    ofText? "Half.In.a.OUT.straße" = some ⟨⟨"half.in.a"⟩, true, "STRASSE"⟩ ∧
      ofText? "half.in.a.out.STRASSE" = some ⟨⟨"half.in.a"⟩, true, "STRASSE"⟩ := by
  have hread : ofText? "Half.In.a.OUT.straße" = some ⟨⟨"half.in.a"⟩, true, "STRASSE"⟩ := by
    decide +kernel
  exact ⟨hread, (ofText?_grammar _ _).2.1 hread⟩

end LogicBoard.Pin
