/-
  LogicBoard.Proofs.Json.Documents
  ────────────────────────────────
  **DOCUMENTS ARE READ BACK.**

  A document that is written over several lines reads as itself but for its
  doubles, which may have become other ones.  Its whole numbers have to be of
  64 bits, its doubles finite, and nothing in it may be unreadable.  The
  reader skips the line starts, and the comma or the line start behind a
  value ends it.

  The reader spends one unit of fuel per call.  A value is read with twice as
  many units as its text has characters, so the fuel that `parse?` gives is
  always enough.

  Main statements:
    • `readItems?_pretty`, `readMembers?_pretty` — lists of values that are
      read back are read back,
    • `parse?_pretty` — so are whole documents.
-/
import LogicBoard.Proofs.Json.Doubles

namespace LogicBoard.Json

/-! ## §1. Documents that are read back. -/

/-- The numbers of the document are machine numbers, and nothing in it is unreadable. -/
inductive IsPrintable : Json → Prop where
  | null : IsPrintable .null
  | bool (b : Bool) : IsPrintable (.bool b)
  | number {n : Number} (machine : n.IsMachine) : IsPrintable (.number n)
  | string (s : String) : IsPrintable (.string s)
  | array {items : List Json} (printable : ∀ j ∈ items, IsPrintable j) :
      IsPrintable (.array items)
  | object {entries : List (String × Json)} (printable : ∀ e ∈ entries, IsPrintable e.2) :
      IsPrintable (.object entries)

mutual

/-- The document with its numbers as they are read when it has been printed. -/
def reread : Json → Json
  | .number n => .number n.reread
  | .array items => .array (rereadItems items)
  | .object entries => .object (rereadMembers entries)
  | j => j

/-- The items with their numbers reread. -/
def rereadItems : List Json → List Json
  | [] => []
  | item :: rest => item.reread :: rereadItems rest

/-- The members with their numbers reread. -/
def rereadMembers : List (String × Json) → List (String × Json)
  | [] => []
  | (key, value) :: rest => (key, value.reread) :: rereadMembers rest

end

theorem reread_array (items : List Json) : reread (.array items) = .array (items.map reread) := by
  have hitems : rereadItems items = items.map reread := by
    induction items with
    | nil => rfl
    | cons item rest ih =>
      unfold rereadItems
      rw [ih]
      rfl
  conv => lhs; unfold reread
  rw [hitems]

theorem reread_object (entries : List (String × Json)) :
    reread (.object entries) = .object (entries.map fun e => (e.1, e.2.reread)) := by
  have hmembers : rereadMembers entries = entries.map fun e => (e.1, e.2.reread) := by
    induction entries with
    | nil => rfl
    | cons e rest ih =>
      unfold rereadMembers
      rw [ih]
      rfl
  conv => lhs; unfold reread
  rw [hmembers]

/-- The text of a document over several lines. -/
def textAt (level : Nat) (j : Json) : List Char := (prettyAt level j).toList

/-- At any level, the document is read from its text and no further. -/
def IsRead (j : Json) : Prop :=
  ∀ (level fuel : Nat) (rest : List Char), IsEnd rest → 2 * (textAt level j).length ≤ fuel →
    readValue? fuel (textAt level j ++ rest) = some (j.reread, rest)

/-! ## §2. Texts. -/

theorem textAt_null (level : Nat) : textAt level .null = ['n', 'u', 'l', 'l'] := by
  unfold textAt prettyAt
  rfl

theorem textAt_bool (level : Nat) (b : Bool) :
    textAt level (.bool b) = if b then ['t', 'r', 'u', 'e'] else ['f', 'a', 'l', 's', 'e'] := by
  unfold textAt prettyAt
  cases b <;> rfl

theorem textAt_number (level : Nat) (n : Number) : textAt level (.number n) = n.text.toList := by
  unfold textAt prettyAt
  rfl

theorem textAt_string (level : Nat) (s : String) : textAt level (.string s) = (quote s).toList := by
  unfold textAt prettyAt
  rfl

/-- The text of items, each on lines of its own. -/
def itemsText (level : Nat) (items : List Json) : List Char :=
  (",".intercalate (prettyItems level items)).toList

theorem textAt_array (level : Nat) (items : List Json) :
    textAt level (.array items) = if items = [] then ['[', ']'] else
      '[' :: (itemsText (level + 1) items ++ ((lineStart level).toList ++ [']'])) := by
  unfold textAt prettyAt itemsText
  cases items with
  | nil => simp
  | cons j items => simp [String.toList_append]

/-- The text of members, each on lines of its own. -/
def membersText (level : Nat) (entries : List (String × Json)) : List Char :=
  (",".intercalate (prettyMembers level entries)).toList

theorem textAt_object (level : Nat) (entries : List (String × Json)) :
    textAt level (.object entries) = if entries = [] then ['\x7b', '\x7d'] else
      '\x7b' :: (membersText (level + 1) entries ++ ((lineStart level).toList ++ ['\x7d'])) := by
  unfold textAt prettyAt membersText
  cases entries with
  | nil => simp
  | cons e entries => simp [String.toList_append]

/-! ## §3. Line starts. -/

theorem skipSpace_lineStart (level : Nat) (cs : List Char) :
    skipSpace ((lineStart level).toList ++ cs) = skipSpace cs := by
  have hline : (lineStart level).toList = '\n' :: List.replicate (2 * level) ' ' := by
    simp [lineStart, String.toList_append]
  unfold skipSpace
  rw [hline]
  refine List.dropWhile_append_of_pos ?_
  intro c hc
  rcases List.mem_cons.1 hc with rfl | hc
  · rfl
  · rw [List.eq_of_mem_replicate hc]
    rfl

theorem skipSpace_cons {c : Char} (h : isSpace c = false) (cs : List Char) :
    skipSpace (c :: cs) = c :: cs :=
  List.dropWhile_cons_of_neg (by simp [h])

theorem skipSpace_blank (cs : List Char) : skipSpace (' ' :: cs) = skipSpace cs :=
  List.dropWhile_cons_of_pos rfl

theorem isEnd_comma (cs : List Char) : IsEnd (',' :: cs) := by
  intro c hc
  exact Or.inl (Option.some.inj hc).symm

theorem isEnd_lineStart (level : Nat) (cs : List Char) :
    IsEnd ((lineStart level).toList ++ cs) := by
  intro c hc
  have hline : (lineStart level).toList = '\n' :: List.replicate (2 * level) ' ' := by
    simp [lineStart, String.toList_append]
  rw [hline] at hc
  exact Or.inr (Option.some.inj hc).symm

/-- A value is looked for behind white space. -/
theorem readValue?_skipSpace (fuel : Nat) {cs ds : List Char} (h : skipSpace cs = skipSpace ds) :
    readValue? fuel cs = readValue? fuel ds := by
  cases fuel with
  | zero => rfl
  | succ fuel =>
    unfold readValue?
    rw [h]

/-! ## §4. Items of arrays. -/

theorem itemsText_singleton (level : Nat) (j : Json) :
    itemsText level [j] = (lineStart level).toList ++ textAt level j := by
  unfold itemsText textAt
  simp [prettyItems, String.toList_append]

theorem itemsText_cons (level : Nat) (j k : Json) (rest : List Json) :
    itemsText level (j :: k :: rest)
      = (lineStart level).toList ++ (textAt level j ++ ',' :: itemsText level (k :: rest)) := by
  unfold itemsText textAt
  simp [prettyItems, String.intercalate_cons_cons, String.toList_append]

/-- Items that are read back one by one are read back up to the closing bracket. -/
theorem readItems?_pretty {items : List Json} (hne : items ≠ []) (h : ∀ j ∈ items, IsRead j)
    (level outer fuel : Nat) (rest : List Char)
    (hfuel : 2 * (itemsText level items).length + 1 ≤ fuel) :
    readItems? fuel (itemsText level items ++ ((lineStart outer).toList ++ ']' :: rest))
      = some (items.map reread, rest) := by
  induction items generalizing fuel with
  | nil => exact absurd rfl hne
  | cons j items ih =>
    obtain ⟨hj, hitems⟩ := List.forall_mem_cons.1 h
    obtain ⟨fuel, rfl⟩ : ∃ f, fuel = f + 1 := ⟨fuel - 1, by omega⟩
    cases items with
    | nil =>
      rw [itemsText_singleton] at hfuel ⊢
      rw [List.length_append] at hfuel
      have hread := hj level fuel _ (isEnd_lineStart outer (']' :: rest)) (by omega)
      unfold readItems?
      rw [List.append_assoc, readValue?_skipSpace fuel (skipSpace_lineStart level _), hread]
      dsimp only
      rw [skipSpace_lineStart]
      rfl
    | cons k items =>
      rw [itemsText_cons] at hfuel ⊢
      simp only [List.length_append, List.length_cons] at hfuel
      have hread := hj level fuel _ (isEnd_comma (itemsText level (k :: items)
        ++ ((lineStart outer).toList ++ ']' :: rest))) (by omega)
      have hrest := ih (by simp) hitems fuel (by omega)
      unfold readItems?
      rw [List.append_assoc, readValue?_skipSpace fuel (skipSpace_lineStart level _),
        List.append_assoc, List.cons_append, hread]
      dsimp only
      rw [skipSpace_cons rfl]
      show (readItems? fuel _).map (fun r => (j.reread :: r.1, r.2)) = _
      rw [hrest]
      rfl

/-! ## §5. Members of objects. -/

theorem membersText_singleton (level : Nat) (e : String × Json) :
    membersText level [e]
      = (lineStart level).toList ++ ((quote e.1).toList ++ ':' :: ' ' :: textAt level e.2) := by
  unfold membersText textAt
  simp [prettyMembers, String.toList_append]

theorem membersText_cons (level : Nat) (e d : String × Json) (rest : List (String × Json)) :
    membersText level (e :: d :: rest)
      = (lineStart level).toList ++ ((quote e.1).toList ++ ':' :: ' ' ::
        (textAt level e.2 ++ ',' :: membersText level (d :: rest))) := by
  unfold membersText textAt
  simp [prettyMembers, String.intercalate_cons_cons, String.toList_append]

/-- Reading one member: its key between quotes, a colon, its value, and what ends it. -/
theorem readMembers?_succ {fuel : Nat} {cs quoted after text behind : List Char}
    {key : Option String} {value : Json} (hquote : skipSpace cs = '"' :: quoted)
    (hkey : readString? quoted = some (key, after)) (hcolon : skipSpace after = ':' :: text)
    (hvalue : readValue? fuel text = some (value, behind)) :
    readMembers? (fuel + 1) cs = match skipSpace behind with
      | '}' :: rest => some ([(key, value)], rest)
      | ',' :: rest => (readMembers? fuel rest).map fun r => ((key, value) :: r.1, r.2)
      | _ => none := by
  conv => lhs; unfold readMembers?
  rw [hquote]
  split
  case h_1 rest heq =>
    obtain ⟨-, rfl⟩ := List.cons.inj heq
    rw [hkey]
    dsimp only
    rw [hcolon]
    split
    case h_1 rest heq' =>
      obtain ⟨-, rfl⟩ := List.cons.inj heq'
      exact hvalue ▸ rfl
    case h_2 hno => exact absurd rfl (hno text)
  case h_2 hno => exact absurd rfl (hno quoted)

/-- Members whose values are read back one by one are read back up to the closing brace. -/
theorem readMembers?_pretty {entries : List (String × Json)} (hne : entries ≠ [])
    (h : ∀ e ∈ entries, IsRead e.2) (level outer fuel : Nat) (rest : List Char)
    (hfuel : 2 * (membersText level entries).length + 1 ≤ fuel) :
    readMembers? fuel (membersText level entries ++ ((lineStart outer).toList ++ '}' :: rest))
      = some (entries.map fun e => (some e.1, e.2.reread), rest) := by
  induction entries generalizing fuel with
  | nil => exact absurd rfl hne
  | cons e entries ih =>
    obtain ⟨he, hentries⟩ := List.forall_mem_cons.1 h
    obtain ⟨fuel, rfl⟩ : ∃ f, fuel = f + 1 := ⟨fuel - 1, by omega⟩
    cases entries with
    | nil =>
      rw [membersText_singleton] at hfuel ⊢
      simp only [List.length_append, List.length_cons] at hfuel
      have hread := he level fuel _ (isEnd_lineStart outer ('}' :: rest)) (by omega)
      obtain ⟨cs, hquote, hkey⟩ := readString?_quote e.1
        (':' :: ' ' :: (textAt level e.2 ++ ((lineStart outer).toList ++ '}' :: rest)))
      have hstart : skipSpace ((lineStart level).toList ++ ('"' :: cs)) = '"' :: cs := by
        rw [skipSpace_lineStart, skipSpace_cons rfl]
      rw [← readValue?_skipSpace fuel (skipSpace_blank _)] at hread
      rw [List.append_assoc, List.append_assoc, List.cons_append, List.cons_append, hquote,
        readMembers?_succ hstart hkey (skipSpace_cons rfl _) hread, skipSpace_lineStart]
      rfl
    | cons d entries =>
      rw [membersText_cons] at hfuel ⊢
      simp only [List.length_append, List.length_cons] at hfuel
      have hread := he level fuel _ (isEnd_comma (membersText level (d :: entries)
        ++ ((lineStart outer).toList ++ '}' :: rest))) (by omega)
      have hrest := ih (by simp) hentries fuel (by omega)
      obtain ⟨cs, hquote, hkey⟩ := readString?_quote e.1 (':' :: ' ' :: (textAt level e.2 ++
        (',' :: (membersText level (d :: entries) ++ ((lineStart outer).toList ++ '}' :: rest)))))
      have hstart : skipSpace ((lineStart level).toList ++ ('"' :: cs)) = '"' :: cs := by
        rw [skipSpace_lineStart, skipSpace_cons rfl]
      rw [← readValue?_skipSpace fuel (skipSpace_blank _)] at hread
      rw [List.append_assoc, List.append_assoc, List.cons_append, List.cons_append,
        List.append_assoc, List.cons_append, hquote,
        readMembers?_succ hstart hkey (skipSpace_cons rfl _) hread, skipSpace_cons rfl]
      show (readMembers? fuel _).map (fun r => ((some e.1, e.2.reread) :: r.1, r.2)) = _
      rw [hrest]
      rfl

/-! ## §6. Documents. -/

theorem packObject_map (entries : List (String × Json)) :
    packObject (entries.map fun e => (some e.1, e.2.reread)) = reread (.object entries) := by
  have hall : (entries.map fun e => (some e.1, e.2.reread)).mapM
      (fun m : Option String × Json => m.1.map fun key => (key, m.2))
        = some (entries.map fun e => (e.1, e.2.reread)) := by
    induction entries with
    | nil => rfl
    | cons e rest ih =>
      rw [List.map_cons, List.mapM_cons, ih]
      rfl
  unfold packObject
  rw [hall, reread_object]

theorem not_isSpace_of_number {c : Char} (h : c.isDigit = true ∨ c = '-') : isSpace c = false := by
  unfold isSpace
  simp only [Bool.or_eq_false_iff, decide_eq_false_iff_not]
  refine ⟨⟨⟨?_, ?_⟩, ?_⟩, ?_⟩ <;>
  · rintro rfl
    exact absurd h (by decide)

/-- The text of a document begins with a character that is neither white space nor a bracket that
closes. -/
theorem IsPrintable.exists_head {j : Json} (h : IsPrintable j) (level : Nat) :
    ∃ c cs, textAt level j = c :: cs ∧ isSpace c = false ∧ c ≠ ']' := by
  cases h with
  | null => exact ⟨_, _, textAt_null level, rfl, by decide⟩
  | bool b =>
    rw [textAt_bool]
    cases b
    · exact ⟨_, _, rfl, rfl, by decide⟩
    · exact ⟨_, _, rfl, rfl, by decide⟩
  | @number n machine =>
    obtain ⟨c, cs, htext, hc⟩ := exists_head_text machine
    refine ⟨c, cs, (textAt_number level n).trans htext, not_isSpace_of_number hc, ?_⟩
    rintro rfl
    exact absurd hc (by decide)
  | string s =>
    obtain ⟨cs, hquote, -⟩ := readString?_quote s []
    rw [List.append_nil] at hquote
    exact ⟨'"', cs, (textAt_string level s).trans hquote, rfl, by decide⟩
  | @array items printable =>
    rw [textAt_array]
    split
    · exact ⟨_, _, rfl, rfl, by decide⟩
    · exact ⟨_, _, rfl, rfl, by decide⟩
  | @object entries printable =>
    rw [textAt_object]
    split
    · exact ⟨_, _, rfl, rfl, by decide⟩
    · exact ⟨_, _, rfl, rfl, by decide⟩

theorem exists_head_items {items : List Json} (hne : items ≠ []) (h : ∀ j ∈ items, IsPrintable j)
    (level : Nat) (rest : List Char) :
    ∃ c cs, skipSpace (itemsText level items ++ rest) = c :: cs ∧ isSpace c = false ∧ c ≠ ']' := by
  cases items with
  | nil => exact absurd rfl hne
  | cons j items =>
    obtain ⟨c, cs, htext, hspace, hc⟩ := (h j List.mem_cons_self).exists_head level
    obtain ⟨more, hmore⟩ : ∃ more, itemsText level (j :: items)
        = (lineStart level).toList ++ (c :: cs ++ more) := by
      rw [← htext]
      cases items with
      | nil => exact ⟨[], by rw [itemsText_singleton, List.append_nil]⟩
      | cons k items => exact ⟨_, itemsText_cons level j k items⟩
    refine ⟨c, cs ++ more ++ rest, ?_, hspace, hc⟩
    rw [hmore, List.append_assoc, skipSpace_lineStart]
    exact skipSpace_cons hspace _

theorem exists_head_members {entries : List (String × Json)} (hne : entries ≠ []) (level : Nat)
    (rest : List Char) : ∃ cs, skipSpace (membersText level entries ++ rest) = '"' :: cs := by
  cases entries with
  | nil => exact absurd rfl hne
  | cons e entries =>
    obtain ⟨cs, hquote, -⟩ := readString?_quote e.1 []
    rw [List.append_nil] at hquote
    obtain ⟨more, hmore⟩ : ∃ more, membersText level (e :: entries)
        = (lineStart level).toList ++ ('"' :: cs ++ more) := by
      rw [← hquote]
      cases entries with
      | nil => exact ⟨_, membersText_singleton level e⟩
      | cons d entries => exact ⟨_, membersText_cons level e d entries⟩
    refine ⟨cs ++ more ++ rest, ?_⟩
    rw [hmore, List.append_assoc, skipSpace_lineStart]
    exact skipSpace_cons rfl _

/-- What begins with a digit or a minus sign is read as a number. -/
theorem readValue?_number (fuel : Nat) {c : Char} {cs : List Char}
    (hc : c.isDigit = true ∨ c = '-') : readValue? (fuel + 1) (c :: cs) = readNumber? (c :: cs) := by
  unfold readValue?
  rw [skipSpace_cons (not_isSpace_of_number hc)]
  split
  case h_7 => rfl
  all_goals
    rename_i heq
    obtain ⟨rfl, -⟩ := List.cons.inj heq
    exact absurd hc (by decide)

/-- What does not close an array at once is read as its items. -/
theorem readValue?_array (fuel : Nat) {cs ds : List Char} {c : Char} (h : skipSpace cs = c :: ds)
    (hspace : isSpace c = false) (hc : c ≠ ']') :
    readValue? (fuel + 1) ('[' :: cs) = (readItems? fuel cs).map fun r => (.array r.1, r.2) := by
  have hitems : readItems? fuel (c :: ds) = readItems? fuel cs := by
    cases fuel with
    | zero => rfl
    | succ fuel =>
      unfold readItems?
      rw [readValue?_skipSpace fuel ((skipSpace_cons hspace ds).trans h.symm)]
  have hopen : skipSpace ('[' :: cs) = '[' :: cs := skipSpace_cons rfl cs
  conv => lhs; unfold readValue?
  rw [hopen]
  simp only
  rw [h, ← hitems]
  split
  · rename_i heq
    exact absurd (List.cons.inj heq).1 hc
  · rfl

/-- What does not close an object at once is read as its members. -/
theorem readValue?_object (fuel : Nat) {cs ds : List Char} (h : skipSpace cs = '"' :: ds) :
    readValue? (fuel + 1) ('\x7b' :: cs)
      = (readMembers? fuel cs).map fun r => (packObject r.1, r.2) := by
  have hmembers : readMembers? fuel ('"' :: ds) = readMembers? fuel cs := by
    cases fuel with
    | zero => rfl
    | succ fuel =>
      unfold readMembers?
      rw [h, skipSpace_cons rfl]
  have hopen : skipSpace ('\x7b' :: cs) = '\x7b' :: cs := skipSpace_cons rfl cs
  conv => lhs; unfold readValue?
  rw [hopen]
  simp only
  rw [h, ← hmembers]
  rfl

theorem isRead_number {n : Number} (h : n.IsMachine) : IsRead (.number n) := by
  intro level fuel rest hrest hfuel
  obtain ⟨c, cs, htext, hc⟩ := exists_head_text h
  have hread := readNumber?_text h hrest
  rw [textAt_number] at hfuel ⊢
  rw [htext] at hfuel hread ⊢
  obtain ⟨fuel, rfl⟩ : ∃ f, fuel = f + 1 := ⟨fuel - 1, by simp at hfuel; omega⟩
  rw [List.cons_append, readValue?_number fuel hc]
  exact hread

theorem isRead_string (s : String) : IsRead (.string s) := by
  intro level fuel rest hrest hfuel
  obtain ⟨cs, hquote, hread⟩ := readString?_quote s rest
  rw [textAt_string] at hfuel ⊢
  obtain ⟨fuel, rfl⟩ : ∃ f, fuel = f + 1 := ⟨fuel - 1, by
    have hlength : 0 < (quote s).toList.length := by simp [quote, String.toList_append]
    omega⟩
  rw [hquote]
  show (readString? cs).map _ = _
  rw [hread]
  rfl

theorem isRead_array {items : List Json} (printable : ∀ j ∈ items, IsPrintable j)
    (h : ∀ j ∈ items, IsRead j) : IsRead (.array items) := by
  intro level fuel rest hrest hfuel
  rw [textAt_array] at hfuel ⊢
  obtain ⟨fuel, rfl⟩ : ∃ f, fuel = f + 1 := ⟨fuel - 1, by split at hfuel <;> simp at hfuel <;> omega⟩
  split
  · rename_i hnil
    rw [hnil]
    rfl
  · rename_i hne
    rw [if_neg hne] at hfuel
    simp only [List.length_cons, List.length_append] at hfuel
    have hitems := readItems?_pretty hne h (level + 1) level fuel rest (by omega)
    obtain ⟨c, cs, hhead, hspace, hc⟩ := exists_head_items hne printable (level + 1)
      ((lineStart level).toList ++ ']' :: rest)
    rw [List.cons_append, List.append_assoc, List.append_assoc, List.singleton_append,
      readValue?_array fuel hhead hspace hc, hitems, reread_array]
    rfl

theorem isRead_object {entries : List (String × Json)} (h : ∀ e ∈ entries, IsRead e.2) :
    IsRead (.object entries) := by
  intro level fuel rest hrest hfuel
  rw [textAt_object] at hfuel ⊢
  obtain ⟨fuel, rfl⟩ : ∃ f, fuel = f + 1 := ⟨fuel - 1, by split at hfuel <;> simp at hfuel <;> omega⟩
  split
  · rename_i hnil
    rw [hnil]
    rfl
  · rename_i hne
    rw [if_neg hne] at hfuel
    simp only [List.length_cons, List.length_append] at hfuel
    have hmembers := readMembers?_pretty hne h (level + 1) level fuel rest (by omega)
    obtain ⟨cs, hhead⟩ := exists_head_members hne (level + 1) _
    rw [List.cons_append, List.append_assoc, List.append_assoc, List.singleton_append,
      readValue?_object fuel hhead, hmembers, Option.map_some, packObject_map]

/-- Printable documents are read. -/
theorem IsPrintable.isRead {j : Json} (h : IsPrintable j) : IsRead j := by
  induction h with
  | null =>
    intro level fuel rest hrest hfuel
    rw [textAt_null] at hfuel ⊢
    obtain ⟨fuel, rfl⟩ : ∃ f, fuel = f + 1 := ⟨fuel - 1, by simp at hfuel; omega⟩
    rfl
  | bool b =>
    intro level fuel rest hrest hfuel
    rw [textAt_bool] at hfuel ⊢
    obtain ⟨fuel, rfl⟩ : ∃ f, fuel = f + 1 := ⟨fuel - 1, by cases b <;> simp at hfuel <;> omega⟩
    cases b <;> rfl
  | number machine => exact isRead_number machine
  | string s => exact isRead_string s
  | array printable ih => exact isRead_array printable ih
  | object printable ih => exact isRead_object ih

/-- A printable document is read from its text. -/
theorem parse?_pretty {j : Json} (h : IsPrintable j) : parse? j.pretty = some j.reread := by
  have hread := h.isRead 0 (2 * j.pretty.toList.length + 2) [] (by simp [IsEnd]) (by
    show 2 * j.pretty.toList.length ≤ _
    omega)
  rw [List.append_nil] at hread
  unfold parse?
  dsimp only
  rw [show readValue? (2 * j.pretty.toList.length + 2) j.pretty.toList = _ from hread]
  rfl

end LogicBoard.Json
