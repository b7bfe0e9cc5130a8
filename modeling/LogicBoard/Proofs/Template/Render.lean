/-
  LogicBoard.Proofs.Template.Render
  ────────────────────────────────
  **WHAT A TEMPLATE SAYS.**

  The text of a template is put together from the texts of its parts.  A loop
  over a list says its body for every item, and a part that puts the items of
  a list together says them with a separator in between.  Shifting a text to
  the right shifts its lines.

  Main statements:
    • `render?_loop` — the text of a loop,
    • `render?_join` — items with a separator in between,
    • `splitLines_indent` — the lines of a text that was shifted.
-/
import LogicBoard.Proofs.Text.Lines
import LogicBoard.Template.Render

namespace LogicBoard.Template

universe u

variable {scope : Scope}

/-! ## §1. Parts. -/

/-- Parts are said one after the other. -/
theorem renderAll?_cons {p : Part} {rest : List Part} {s t : String}
    (hp : p.render? scope = some s) (hrest : renderAll? scope rest = some t) :
    renderAll? scope (p :: rest) = some (s ++ t) := by
  unfold renderAll?
  rw [hp, hrest]
  rfl

theorem renderAll?_append {ps qs : List Part} {s t : String} (hps : renderAll? scope ps = some s)
    (hqs : renderAll? scope qs = some t) : renderAll? scope (ps ++ qs) = some (s ++ t) := by
  induction ps generalizing s with
  | nil =>
    obtain rfl := Option.some.inj hps
    rw [String.empty_append]
    exact hqs
  | cons p rest ih =>
    unfold renderAll? at hps
    obtain ⟨first, hfirst, hrest⟩ := Option.bind_eq_some_iff.1 hps
    obtain ⟨others, hothers, hs⟩ := Option.bind_eq_some_iff.1 hrest
    obtain rfl := Option.some.inj hs
    rw [String.append_assoc]
    exact renderAll?_cons hfirst (ih hothers)

theorem render?_place {e : Expr} {s : String} (h : e.eval? scope = some (.string s)) :
    (Part.place e).render? scope = some s := by
  unfold Part.render?
  rw [h]
  rfl

theorem render?_choice {condition : Expr} {yes : List Part} {b : Bool} {s : String}
    (hcondition : condition.eval? scope = some (.boolean b))
    (hyes : renderAll? scope yes = some s) :
    (Part.choice condition yes []).render? scope = some (if b then s else "") := by
  unfold Part.render?
  rw [hcondition]
  cases b
  · rfl
  · exact hyes

/-- A pass over a list that is numbered does not fail if no item fails. -/
theorem mapM_zipIdx {α : Type u} {β : Type} {f : Value × Nat → Option β} {v : α → Value} {g : α → β}
    {l : List α} (h : ∀ a ∈ l, ∀ i, f (v a, i) = some (g a)) (start : Nat) :
    ((l.map v).zipIdx start).mapM f = some (l.map g) := by
  induction l generalizing start with
  | nil => rfl
  | cons a rest ih =>
    obtain ⟨ha, hrest⟩ := List.forall_mem_cons.1 h
    rw [List.map_cons, List.zipIdx_cons, List.mapM_cons, ha, ih hrest]
    rfl

/-- A loop says its body for every item of its list. -/
theorem render?_loop {α : Type u} {name : String} {e : Expr} {body : List Part} {l : List α}
    {v : α → Value} {f : α → String} (hlist : e.eval? scope = some (.list (l.map v)))
    (hbody : ∀ a ∈ l, ∀ round,
      renderAll? ((name, v a) :: ("loop", round) :: scope) body = some (f a)) :
    (Part.loop name e body []).render? scope = some (String.join (l.map f)) := by
  unfold Part.render?
  rw [hlist]
  show (if ((l.map v).isEmpty = true) then renderAll? scope [] else _) = _
  cases l with
  | nil => rfl
  | cons a rest =>
    rw [if_neg (by simp)]
    have hrounds := mapM_zipIdx (f := fun e : Value × Nat =>
      renderAll? ((name, e.1) :: ("loop", round e.2 ((a :: rest).map v).length) :: scope) body)
      (fun a ha i => hbody a ha _) 0
    show Option.bind ((((a :: rest).map v).zipIdx 0).mapM _) _ = _
    rw [hrounds]
    rfl

/-! ## §2. Items with separators. -/

theorem mapM_text? (l : List String) : (l.map Value.string).mapM Value.text? = some l := by
  induction l with
  | nil => rfl
  | cons s rest ih =>
    rw [List.map_cons, List.mapM_cons, ih]
    rfl

/-- The items of a list of texts are said with the separator in between. -/
theorem render?_join {e : Expr} {l : List String} (h : e.eval? scope = some (.ofTexts l))
    (separator : String) : (Part.place (.filter e "join" [.string separator])).render? scope
      = some (separator.intercalate l) := by
  have hjoined : joined? separator (.ofTexts l) = some (separator.intercalate l) := by
    show ((l.map Value.string).mapM Value.text?).bind _ = _
    rw [mapM_text?]
    rfl
  apply render?_place
  unfold Expr.eval?
  rw [h]
  show (joined? separator (.ofTexts l)).bind _ = _
  rw [hjoined]
  rfl

/-! ## §3. Shifted texts. -/

theorem reverse_of_ne_return {c : Char} (h : c ≠ '\r') (cs : List Char) :
    (match c :: cs.reverse with
      | '\r' :: rest => rest.reverse
      | _ => (c :: cs.reverse).reverse) = cs ++ [c] := by
  split
  · rename_i hback
    exact absurd (List.cons.inj hback).1 h
  · rw [List.reverse_cons, List.reverse_reverse]

/-- A text that ends with another character keeps it. -/
theorem dropLastBreak_concat {c : Char} (hfeed : c ≠ '\n') (hreturn : c ≠ '\r') (cs : List Char) :
    Token.dropLastBreak (cs ++ [c]) = cs ++ [c] := by
  unfold Token.dropLastBreak
  rw [List.reverse_concat]
  split
  · rename_i hback
    exact absurd (List.cons.inj hback).1 hfeed
  · exact reverse_of_ne_return hreturn cs

/-- A line feed behind it goes. -/
theorem dropLastBreak_feed {c : Char} (hreturn : c ≠ '\r') (cs : List Char) :
    Token.dropLastBreak (cs ++ [c] ++ ['\n']) = cs ++ [c] := by
  unfold Token.dropLastBreak
  rw [List.reverse_concat, List.reverse_concat]
  exact reverse_of_ne_return hreturn cs

theorem not_mem_withMargin {line : List Char} (h : '\n' ∉ line) (width : Nat) :
    '\n' ∉ withMargin width line := by
  unfold withMargin
  split
  · exact h
  · rw [List.mem_append, List.mem_replicate]
    exact not_or.2 ⟨fun hblank => absurd hblank.2 (by decide), h⟩

theorem intercalate_concat {separator : List Char} {lines : List (List Char)} (h : lines ≠ [])
    (line : List Char) : separator.intercalate (lines ++ [line])
      = separator.intercalate lines ++ separator ++ line := by
  induction lines with
  | nil => exact absurd rfl h
  | cons first rest ih =>
    cases rest with
    | nil =>
      rw [List.singleton_append, List.intercalate_cons_cons, List.intercalate_singleton,
        List.intercalate_singleton]
    | cons next rest =>
      rw [List.cons_append, List.cons_append, List.intercalate_cons_cons, ← List.cons_append,
        ih (List.cons_ne_nil _ _), List.intercalate_cons_cons]
      simp only [List.append_assoc]

open Text (splitLines)

/-- All lines but the first one are shifted.  The text ends with a line that does not end with a
blank, so nothing is dropped at its end. -/
theorem splitLines_indent {s : String} {front last : List Char} {c : Char} (width : Nat)
    (hlast : '\n' ∉ last ++ [c]) (hreturn : c ≠ '\r')
    (hs : s.toList = front ++ '\n' :: (last ++ [c])) :
    splitLines (indent width s).toList = (splitLines s.toList).take 1 ++
      ((splitLines s.toList).drop 1).map (withMargin width) := by
  have hfeed : c ≠ '\n' := by
    rintro rfl
    exact hlast (by simp)
  obtain ⟨first, others, hfront⟩ := List.exists_cons_of_ne_nil (Text.splitLines_ne_nil front)
  have hlines : splitLines s.toList = first :: others ++ [last ++ [c]] := by
    rw [hs, Text.splitLines_append_break, hfront, Text.splitLines_of_not_mem hlast]
  have hkept : Token.dropLastBreak s.toList = s.toList := by
    rw [hs, ← List.cons_append, ← List.append_assoc]
    exact dropLastBreak_concat hfeed hreturn _
  have hmargin : withMargin width (last ++ [c]) = List.replicate width ' ' ++ last ++ [c] := by
    unfold withMargin
    rw [if_neg (by simp), List.append_assoc]
  have hshifted : (splitLines s.toList).take 1 ++ ((splitLines s.toList).drop 1).map
      (withMargin width) = first :: others.map (withMargin width) ++
        [List.replicate width ' ' ++ last ++ [c]] := by
    rw [hlines, ← hmargin]
    simp
  have hplain : ∀ line ∈ first :: others.map (withMargin width) ++
      [List.replicate width ' ' ++ last ++ [c]], '\n' ∉ line := by
    intro line hline
    rw [← hshifted] at hline
    rcases List.mem_append.1 hline with hline | hline
    · exact Text.not_mem_of_mem_splitLines (List.mem_of_mem_take hline)
    · obtain ⟨old, hold, rfl⟩ := List.mem_map.1 hline
      exact not_mem_withMargin (Text.not_mem_of_mem_splitLines (List.mem_of_mem_drop hold)) width
  unfold indent
  dsimp only
  rw [hkept, hshifted, String.toList_ofList, intercalate_concat (List.cons_ne_nil _ _),
    ← List.append_assoc, dropLastBreak_feed hreturn, List.append_assoc,
    ← intercalate_concat (List.cons_ne_nil _ _)]
  exact Text.splitLines_intercalate (by simp) hplain

end LogicBoard.Template
