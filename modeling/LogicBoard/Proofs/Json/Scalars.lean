/-
  LogicBoard.Proofs.Json.Scalars
  ────────────────────────────────
  **TEXTS AND WHOLE NUMBERS ARE READ BACK.**

  Every character of a text is spelled in a way that the reader takes for
  that character.  A whole number of 64 bits is spelled by its digits, and
  they are all read if no digit, point or exponent follows.

  Main statements:
    • `readString?_quote` — a quoted text is read back,
    • `readNumber?_int` — a whole number is read back.
-/
import LogicBoard.Json.Printer
import LogicBoard.Json.Reader

namespace LogicBoard.Json

/-! ## §1. Strings. -/

/-- The piece is what a character is read as: itself, or the code unit of a control. -/
def StandsFor (c : Char) (p : Piece) : Prop :=
  p = .char c ∨ p = .unit c.toNat ∧ c.toNat < 0x20

/-- The spelling of a control that has no letter of its own. -/
theorem codeUnit?_control {c : Char} (h : c.toNat < 0x20) :
    codeUnit? '0' '0' (hexDigit (c.toNat / 16)) (hexDigit (c.toNat % 16)) = some c.toNat := by
  have hall : ∀ n < 0x20, codeUnit? '0' '0' (hexDigit (n / 16)) (hexDigit (n % 16)) = some n := by
    decide
  exact hall c.toNat h

/-- A character that is spelled by itself. -/
theorem readPieces?_plain {c : Char} (hquote : c ≠ '"') (hslash : c ≠ '\\')
    (hcontrol : ¬ c.toNat < 0x20) (rest : List Char) :
    readPieces? (c :: rest) = (readPieces? rest).map fun r => (.char c :: r.1, r.2) := by
  rw [readPieces?.eq_def]
  split
  case h_5 c' rest' _ _ _ heq =>
    obtain ⟨rfl, rfl⟩ := List.cons.inj heq
    simp only [hslash, hcontrol, decide_false, Bool.or_self, Bool.false_eq_true, if_false]
    cases readPieces? rest <;> rfl
  all_goals simp_all

/-- A character that is spelled by a backslash and a letter. -/
theorem readPieces?_letter {e c : Char} (h : escaped? e = some c) (rest : List Char) :
    readPieces? ('\\' :: e :: rest) = (readPieces? rest).map fun r => (.char c :: r.1, r.2) := by
  have hu : e ≠ 'u' := by
    rintro rfl
    exact absurd (show escaped? 'u' = none from rfl) (by rw [h]; simp)
  rw [readPieces?.eq_def]
  split
  case h_4 e' rest' _ heq =>
    obtain ⟨rfl, rfl⟩ := List.cons.inj (List.cons.inj heq).2
    rw [h]
    cases readPieces? rest <;> rfl
  case h_5 c' rest' _ _ hno heq =>
    obtain ⟨rfl, rfl⟩ := List.cons.inj heq
    exact absurd rfl (hno e rest rfl)
  all_goals simp_all

/-- The spelling of a character is read as one piece. -/
theorem readPieces?_escapeChar (c : Char) (rest : List Char) :
    ∃ p, StandsFor c p ∧
      readPieces? (escapeChar c ++ rest) = (readPieces? rest).map fun r => (p :: r.1, r.2) := by
  unfold escapeChar
  split
  case h_8 hquote hslash _ _ _ _ _ =>
    split
    · rename_i hcontrol
      refine ⟨.unit c.toNat, Or.inr ⟨rfl, hcontrol⟩, ?_⟩
      simp only [readPieces?, codeUnit?_control hcontrol, List.cons_append, List.nil_append]
      cases readPieces? rest <;> rfl
    · rename_i hcontrol
      exact ⟨.char c, Or.inl rfl, readPieces?_plain hquote hslash hcontrol rest⟩
  -- All other characters have a letter of their own.
  all_goals exact ⟨.char _, Or.inl rfl, readPieces?_letter rfl rest⟩

/-- Code units below the surrogates stand for characters of their own. -/
theorem assemble?_cons {c : Char} {p : Piece} (h : StandsFor c p) (ps : List Piece) :
    assemble? (p :: ps) = (assemble? ps).map (c :: ·) := by
  rcases h with rfl | ⟨rfl, hcontrol⟩
  · rw [assemble?]
  · have hhigh : ¬ 0xD800 ≤ c.toNat := by omega
    have hlow : ¬ 0xDC00 ≤ c.toNat := by omega
    rw [assemble?.eq_def]
    split
    case h_3 n low rest heq =>
      obtain ⟨hn, rfl⟩ := List.cons.inj heq
      obtain rfl := Piece.unit.inj hn
      simp [hhigh, hlow]
    case h_4 n rest _ heq =>
      obtain ⟨hn, rfl⟩ := List.cons.inj heq
      obtain rfl := Piece.unit.inj hn
      simp [hhigh]
    all_goals simp_all

/-- The spelling of a text is read up to the closing quote. -/
theorem readPieces?_text (cs rest : List Char) :
    ∃ ps, assemble? ps = some cs ∧
      readPieces? (cs.flatMap escapeChar ++ '"' :: rest) = some (ps, rest) := by
  induction cs with
  | nil => exact ⟨[], rfl, rfl⟩
  | cons c cs ih =>
    obtain ⟨ps, hps, hread⟩ := ih
    obtain ⟨p, hp, hchar⟩ := readPieces?_escapeChar c (cs.flatMap escapeChar ++ '"' :: rest)
    refine ⟨p :: ps, ?_, ?_⟩
    · rw [assemble?_cons hp, hps]
      rfl
    · rw [List.flatMap_cons, List.append_assoc, hchar, hread]
      rfl

/-- A quoted text is read back. -/
theorem readString?_quote (s : String) (rest : List Char) :
    ∃ cs, (quote s).toList ++ rest = '"' :: cs ∧ readString? cs = some (some s, rest) := by
  obtain ⟨ps, hps, hread⟩ := readPieces?_text s.toList rest
  refine ⟨s.toList.flatMap escapeChar ++ '"' :: rest, ?_, ?_⟩
  · unfold quote
    simp [String.toList_append]
  · unfold readString?
    rw [hread]
    simp [hps]

/-! ## §2. Digits. -/

/-- What may follow a document inside another one, or at the end of a text. -/
def IsEnd (rest : List Char) : Prop := ∀ c, rest.head? = some c → c = ',' ∨ c = '\n'

theorem IsEnd.cases {rest : List Char} (h : IsEnd rest) :
    rest = [] ∨ (∃ r, rest = ',' :: r) ∨ ∃ r, rest = '\n' :: r := by
  cases rest with
  | nil => exact Or.inl rfl
  | cons c r =>
    rcases h c rfl with rfl | rfl
    · exact Or.inr (Or.inl ⟨r, rfl⟩)
    · exact Or.inr (Or.inr ⟨r, rfl⟩)

/-- No digit follows. -/
def StopsDigits (rest : List Char) : Prop := ∀ c, rest.head? = some c → c.isDigit = false

theorem IsEnd.stops {rest : List Char} (h : IsEnd rest) : StopsDigits rest := by
  intro c hc
  rcases h c hc with rfl | rfl
  · rfl
  · rfl

/-- All digits are taken if none follows. -/
theorem takeDigits_append {cs rest : List Char} (hcs : ∀ c ∈ cs, c.isDigit = true)
    (hrest : StopsDigits rest) : takeDigits (cs ++ rest) = (cs.map Text.digitValue, rest) := by
  have hstop : rest.takeWhile Char.isDigit = [] ∧ rest.dropWhile Char.isDigit = rest := by
    cases rest with
    | nil => exact ⟨rfl, rfl⟩
    | cons c r =>
      have hc : ¬ c.isDigit = true := by simp [hrest c rfl]
      exact ⟨List.takeWhile_cons_of_neg hc, List.dropWhile_cons_of_neg hc⟩
  unfold takeDigits
  rw [List.takeWhile_append_of_pos hcs, List.dropWhile_append_of_pos hcs, hstop.1, hstop.2,
    List.append_nil]

theorem le_foldl_digits (ds : List Nat) (n : Nat) : n ≤ ds.foldl (fun n d => n * 10 + d) n := by
  induction ds generalizing n with
  | nil => exact Nat.le_refl n
  | cons d rest ih => exact Nat.le_trans (by omega) (ih (n * 10 + d))

/-- Digits are appended one by one as long as 64 bits hold the number. -/
theorem appendDigits_eq {ds : List Nat} {n : Nat}
    (h : ds.foldl (fun n d => n * 10 + d) n ≤ largestWord) :
    appendDigits n ds = (ds.foldl (fun n d => n * 10 + d) n, []) := by
  induction ds generalizing n with
  | nil => rfl
  | cons d rest ih =>
    have hfits : n * 10 + d ≤ largestWord := Nat.le_trans (le_foldl_digits rest _) h
    unfold appendDigits
    rw [if_pos hfits]
    exact ih h

theorem foldl_toDigits (n : Nat) :
    ((Nat.toDigits 10 n).map Text.digitValue).foldl (fun n d => n * 10 + d) 0 = n := by
  have hvalue := Nat.ofDigitChars_toDigits (b := 10) (n := n) (by decide) (by decide)
  rw [Nat.ofDigitChars_eq_foldl] at hvalue
  rw [List.foldl_map]
  simpa only [Text.digitValue, Nat.mul_comm] using hvalue

/-- A number of several digits does not begin with a zero. -/
theorem toDigits_head {n : Nat} : ∀ {c : Char} {cs : List Char}, Nat.toDigits 10 n = c :: cs →
    Text.digitValue c = 0 → cs = [] := by
  induction n using Nat.strongRecOn with
  | _ n ih =>
    intro c cs hdigits hzero
    by_cases hsmall : n < 10
    · rw [Nat.toDigits_of_lt_base hsmall] at hdigits
      exact (List.cons.inj hdigits).2.symm
    · -- The digits before the last one begin with the same zero, so there would be only that one.
      have hbelow : n / 10 < n := by omega
      rw [Nat.toDigits_of_base_le (by decide) (by omega)] at hdigits
      cases hfront : Nat.toDigits 10 (n / 10) with
      | nil => exact absurd hfront Nat.toDigits_ne_nil
      | cons d ds =>
        rw [hfront] at hdigits
        obtain ⟨rfl, -⟩ := List.cons.inj hdigits
        have hvalue := foldl_toDigits (n / 10)
        rw [hfront, ih (n / 10) hbelow hfront hzero] at hvalue
        simp [hzero] at hvalue
        omega

/-! ## §3. Whole numbers. -/

/-- Digits that may stand before a point: no zero stands before another digit. -/
structure IsWhole (w : List Char) : Prop where
  digits : ∀ c ∈ w, c.isDigit = true
  nonempty : w ≠ []
  head : ∀ {c cs}, w = c :: cs → Text.digitValue c = 0 → cs = []

theorem isWhole_toDigits (n : Nat) : IsWhole (Nat.toDigits 10 n) where
  digits := fun _ hc => Nat.isDigit_of_mem_toDigits (by decide) (by decide) hc
  nonempty := Nat.toDigits_ne_nil
  head := toDigits_head

theorem IsWhole.readWhole? {w : List Char} (h : IsWhole w) {rest : List Char}
    (hrest : StopsDigits rest) : readWhole? (w ++ rest) = some (w.map Text.digitValue, rest) := by
  unfold Json.readWhole?
  rw [takeDigits_append h.digits hrest]
  cases hw : w with
  | nil => exact absurd hw h.nonempty
  | cons c cs =>
    rw [List.map_cons]
    split
    case h_2 heq =>
      obtain ⟨hds, -⟩ := Prod.mk.inj heq
      obtain ⟨hzero, hmore⟩ := List.cons.inj hds
      rw [h.head hw hzero] at hmore
      exact absurd hmore (by simp)
    all_goals simp_all

/-- The digits of a number of 64 bits are read as a whole number. -/
theorem readUnsigned?_toDigits (negative : Bool) {n : Nat} (hn : n ≤ largestWord)
    {rest : List Char} (hrest : IsEnd rest) :
    readUnsigned? negative (Nat.toDigits 10 n ++ rest)
      = some (.number (wholeNumber negative n), rest) := by
  have hnumber : (⟨negative, (Nat.toDigits 10 n).map Text.digitValue, [], none⟩ : Literal).number?
      = some (wholeNumber negative n) := by
    unfold Literal.number?
    rw [appendDigits_eq (by rw [foldl_toDigits]; exact hn), foldl_toDigits]
    rfl
  have hfraction : readFraction? rest = some ([], rest) := by
    rcases hrest.cases with rfl | ⟨r, rfl⟩ | ⟨r, rfl⟩ <;> rfl
  have hexponent : readExponent? rest = some (none, rest) := by
    rcases hrest.cases with rfl | ⟨r, rfl⟩ | ⟨r, rfl⟩ <;> rfl
  unfold readUnsigned?
  rw [(isWhole_toDigits n).readWhole? hrest.stops]
  simp only [Option.bind_eq_bind, Option.bind_some, hfraction, hexponent, hnumber]
  rfl

theorem toList_toString_negSucc (m : Nat) :
    (toString (Int.negSucc m)).toList = '-' :: Nat.toDigits 10 (m + 1) := by
  show ("-" ++ (m + 1).repr).toList = _
  rw [String.toList_append, Nat.toList_repr]
  rfl

/-- A whole number of 64 bits, with or without sign, is read back. -/
theorem readNumber?_int {n : Int} (hleast : -0x8000000000000000 ≤ n)
    (hmost : n ≤ 0xFFFFFFFFFFFFFFFF) {rest : List Char} (hrest : IsEnd rest) :
    readNumber? ((toString n).toList ++ rest) = some (.int n, rest) := by
  cases n with
  | ofNat m =>
    have htext : (toString (Int.ofNat m)).toList = Nat.toDigits 10 m := Nat.toList_repr
    have hm : m ≤ largestWord := Int.ofNat_le.1 hmost
    -- A digit is no minus sign.
    have hsign : readNumber? (Nat.toDigits 10 m ++ rest)
        = readUnsigned? false (Nat.toDigits 10 m ++ rest) := by
      unfold readNumber?
      split
      · rename_i cs heq
        have hminus : '-' ∈ Nat.toDigits 10 m := by
          cases hdigits : Nat.toDigits 10 m with
          | nil => exact absurd hdigits Nat.toDigits_ne_nil
          | cons c ds =>
            rw [hdigits, List.cons_append] at heq
            rw [(List.cons.inj heq).1]
            exact List.mem_cons_self
        exact absurd (Nat.isDigit_of_mem_toDigits (by decide) (by decide) hminus) (by decide)
      · rfl
    rw [htext, hsign, readUnsigned?_toDigits false hm hrest]
    rfl
  | negSucc m =>
    have hm : m + 1 ≤ 0x8000000000000000 := by omega
    have hrange : ¬ 0x8000000000000000 < m + 1 := by omega
    rw [toList_toString_negSucc, List.cons_append]
    show readUnsigned? true _ = _
    rw [readUnsigned?_toDigits true (Nat.le_trans hm (by decide)) hrest]
    unfold wholeNumber
    simp [hrange, Int.negSucc_eq, int]

end LogicBoard.Json
