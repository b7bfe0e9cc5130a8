/-
  LogicBoard.Proofs.Json.Words
  ────────────────────────────────
  **WHOLE NUMBERS THAT ARE READ FIT 64 BITS.**

  The reader appends digits to a whole number only as long as 64 bits hold
  it, and makes a double of every other literal.  So whatever a text is,
  nobody who looks into its document finds a larger whole number.

  Main statements:
    • `isWord_of_number?` — a literal stands for a word or for a double,
    • `hasWords_of_parse?` — all whole numbers of a document are words.
-/
import LogicBoard.Json.Reader
import LogicBoard.Proofs.Fallible

namespace LogicBoard.Json

/-! ## §1. Words. -/

/-- A double, or a whole number of 64 bits with or without sign. -/
def Number.IsWord : Number → Prop
  | .int n => -0x8000000000000000 ≤ n ∧ n ≤ 0xFFFFFFFFFFFFFFFF
  | .double _ => True

/-- All whole numbers of the document are words. -/
inductive HasWords : Json → Prop where
  | null : HasWords .null
  | bool (b : Bool) : HasWords (.bool b)
  | number {n : Number} (word : n.IsWord) : HasWords (.number n)
  | string (s : String) : HasWords (.string s)
  | array {items : List Json} (words : ∀ j ∈ items, HasWords j) : HasWords (.array items)
  | object {entries : List (String × Json)} (words : ∀ e ∈ entries, HasWords e.2) :
      HasWords (.object entries)
  | unreadable : HasWords .unreadable

/-! ## §2. Numbers. -/

theorem appendDigits_le {n : Nat} (h : n ≤ largestWord) (ds : List Nat) :
    (appendDigits n ds).1 ≤ largestWord := by
  induction ds generalizing n with
  | nil => exact h
  | cons d rest ih =>
    unfold appendDigits
    split
    · rename_i hfits
      exact ih hfits
    · exact h

theorem isWord_wholeNumber (negative : Bool) {n : Nat} (h : n ≤ largestWord) :
    (wholeNumber negative n).IsWord := by
  unfold wholeNumber
  unfold largestWord at h
  cases negative with
  | false =>
    show -0x8000000000000000 ≤ (n : Int) ∧ (n : Int) ≤ 0xFFFFFFFFFFFFFFFF
    omega
  | true =>
    rw [if_neg (by simp)]
    split
    · trivial
    · -- What is left is so small that 64 bits hold it with its sign.
      rename_i hsmall
      have hle : n ≤ 0x8000000000000000 := by
        simp only [Bool.or_eq_true, decide_eq_true_eq, not_or, Nat.not_lt] at hsmall
        exact hsmall.2
      show -0x8000000000000000 ≤ -(n : Int) ∧ -(n : Int) ≤ 0xFFFFFFFFFFFFFFFF
      omega

/-- A literal stands for a word or for a double. -/
theorem isWord_of_number? {l : Literal} {n : Number} (h : l.number? = some n) : n.IsWord := by
  unfold Literal.number? at h
  dsimp only at h
  split at h
  · rw [← Option.some.inj h]
    exact isWord_wholeNumber _ (appendDigits_le (Nat.zero_le _) _)
  · obtain ⟨f, -, rfl⟩ := Option.map_eq_some_iff.1 h
    trivial

theorem hasWords_of_readUnsigned? {negative : Bool} {cs rest : List Char} {j : Json}
    (h : readUnsigned? negative cs = some (j, rest)) : HasWords j := by
  unfold readUnsigned? at h
  simp only [Option.bind_eq_bind, Option.bind_eq_some_iff] at h
  obtain ⟨⟨whole, cs⟩, -, ⟨fraction, cs⟩, -, ⟨exponent, cs⟩, -, h⟩ := h
  dsimp only at h
  split at h
  · rename_i n hnumber
    obtain ⟨rfl, -⟩ := Prod.mk.inj (Option.some.inj h)
    exact .number (isWord_of_number? hnumber)
  · obtain ⟨rfl, -⟩ := Prod.mk.inj (Option.some.inj h)
    exact .unreadable

theorem hasWords_of_readNumber? {cs rest : List Char} {j : Json}
    (h : readNumber? cs = some (j, rest)) : HasWords j := by
  unfold readNumber? at h
  split at h <;> exact hasWords_of_readUnsigned? h

/-! ## §3. Documents. -/

/-- The values of a packed object are those of its members. -/
theorem hasWords_packObject {members : List (Option String × Json)}
    (h : ∀ m ∈ members, HasWords m.2) : HasWords (packObject members) := by
  unfold packObject
  split
  · rename_i entries hall
    refine .object fun e he => ?_
    obtain ⟨m, hm, hkey⟩ := Fallible.mem_mapM hall he
    obtain ⟨key, -, rfl⟩ := Option.map_eq_some_iff.1 hkey
    exact h m hm
  · exact .unreadable

variable {fuel : Nat} {cs rest : List Char}

theorem hasWords_of_readValue? {j : Json}
    (hitems : ∀ {cs items rest}, readItems? fuel cs = some (items, rest) → ∀ j ∈ items, HasWords j)
    (hmembers : ∀ {cs members rest}, readMembers? fuel cs = some (members, rest) →
      ∀ m ∈ members, HasWords m.2)
    (h : readValue? (fuel + 1) cs = some (j, rest)) : HasWords j := by
  unfold readValue? at h
  -- One case for each character that a document may begin with, in the reader's order.
  split at h
  · split at h
    · obtain ⟨rfl, -⟩ := Prod.mk.inj (Option.some.inj h)
      exact .object (by simp)
    · obtain ⟨r, hr, heq⟩ := Option.map_eq_some_iff.1 h
      obtain ⟨rfl, -⟩ := Prod.mk.inj heq
      exact hasWords_packObject (hmembers hr)
  · split at h
    · obtain ⟨rfl, -⟩ := Prod.mk.inj (Option.some.inj h)
      exact .array (by simp)
    · obtain ⟨r, hr, heq⟩ := Option.map_eq_some_iff.1 h
      obtain ⟨rfl, -⟩ := Prod.mk.inj heq
      exact .array (hitems hr)
  · obtain ⟨r, -, heq⟩ := Option.map_eq_some_iff.1 h
    split at heq
    · obtain ⟨rfl, -⟩ := Prod.mk.inj heq
      exact .string _
    · obtain ⟨rfl, -⟩ := Prod.mk.inj heq
      exact .unreadable
  · obtain ⟨r, -, heq⟩ := Option.map_eq_some_iff.1 h
    obtain ⟨rfl, -⟩ := Prod.mk.inj heq
    exact .bool true
  · obtain ⟨r, -, heq⟩ := Option.map_eq_some_iff.1 h
    obtain ⟨rfl, -⟩ := Prod.mk.inj heq
    exact .bool false
  · obtain ⟨r, -, heq⟩ := Option.map_eq_some_iff.1 h
    obtain ⟨rfl, -⟩ := Prod.mk.inj heq
    exact .null
  · exact hasWords_of_readNumber? h

theorem hasWords_of_readItems? {items : List Json}
    (hvalue : ∀ {cs j rest}, readValue? fuel cs = some (j, rest) → HasWords j)
    (hitems : ∀ {cs items rest}, readItems? fuel cs = some (items, rest) → ∀ j ∈ items, HasWords j)
    (h : readItems? (fuel + 1) cs = some (items, rest)) : ∀ j ∈ items, HasWords j := by
  unfold readItems? at h
  split at h
  · exact absurd h (by simp)
  · rename_i item behind hitem
    split at h
    · obtain ⟨rfl, -⟩ := Prod.mk.inj (Option.some.inj h)
      exact List.forall_mem_singleton.2 (hvalue hitem)
    · obtain ⟨r, hr, heq⟩ := Option.map_eq_some_iff.1 h
      obtain ⟨rfl, -⟩ := Prod.mk.inj heq
      exact List.forall_mem_cons.2 ⟨hvalue hitem, hitems hr⟩
    · exact absurd h (by simp)

theorem hasWords_of_readMembers? {members : List (Option String × Json)}
    (hvalue : ∀ {cs j rest}, readValue? fuel cs = some (j, rest) → HasWords j)
    (hmembers : ∀ {cs members rest}, readMembers? fuel cs = some (members, rest) →
      ∀ m ∈ members, HasWords m.2)
    (h : readMembers? (fuel + 1) cs = some (members, rest)) : ∀ m ∈ members, HasWords m.2 := by
  unfold readMembers? at h
  split at h
  case h_2 => exact absurd h (by simp)
  split at h
  · exact absurd h (by simp)
  split at h
  case h_2 => exact absurd h (by simp)
  split at h
  · exact absurd h (by simp)
  · rename_i value behind hread
    split at h
    · obtain ⟨rfl, -⟩ := Prod.mk.inj (Option.some.inj h)
      exact List.forall_mem_singleton.2 (hvalue hread)
    · obtain ⟨r, hr, heq⟩ := Option.map_eq_some_iff.1 h
      obtain ⟨rfl, -⟩ := Prod.mk.inj heq
      exact List.forall_mem_cons.2 ⟨hvalue hread, hmembers hr⟩
    · exact absurd h (by simp)

/-- The three readers call each other with one unit of fuel less. -/
theorem hasWords_of_read (fuel : Nat) :
    (∀ {cs j rest}, readValue? fuel cs = some (j, rest) → HasWords j) ∧
    (∀ {cs items rest}, readItems? fuel cs = some (items, rest) → ∀ j ∈ items, HasWords j) ∧
    (∀ {cs members rest}, readMembers? fuel cs = some (members, rest) →
      ∀ m ∈ members, HasWords m.2) := by
  induction fuel with
  | zero => exact ⟨fun h => by simp [readValue?] at h, fun h => by simp [readItems?] at h,
      fun h => by simp [readMembers?] at h⟩
  | succ fuel ih =>
    obtain ⟨hvalue, hitems, hmembers⟩ := ih
    exact ⟨hasWords_of_readValue? hitems hmembers, hasWords_of_readItems? hvalue hitems,
      hasWords_of_readMembers? hvalue hmembers⟩

/-- All whole numbers of a document are words. -/
theorem hasWords_of_parse? {s : String} {j : Json} (h : parse? s = some j) : HasWords j := by
  unfold parse? at h
  dsimp only at h
  split at h
  · rename_i k rest hread
    split at h
    · exact Option.some.inj h ▸ (hasWords_of_read _).1 hread
    · exact absurd h (by simp)
  · exact absurd h (by simp)

end LogicBoard.Json
