/-
  LogicBoard.Proofs.Compile.Emission
  ────────────────────────────────
  **WHAT THE CLASS OF A TYPE CONSISTS OF.**

  Making a class goes through the chips of the plan twice, once to look
  them up and once for what they contribute, and either pass may fail.  If
  both succeed, the class is put together from what the chips contribute.

  Main statements:
    • `run_ok_iff` — when a class is made, and of what,
    • `planned_wired` — the chips of a plan are the wired ones,
    • `piece_cases`, `piece_ok` — what a chip contributes,
    • `mem_pieces` — the pieces of a class are those of the wired chips,
    • `run_isOk_iff` — a class is made exactly if every wired chip has a
      body.
-/
import Mathlib.Data.List.Forall2
import LogicBoard.Compile.Emit
import LogicBoard.Proofs.Compile.PlanOrder
import LogicBoard.Proofs.Fallible

namespace LogicBoard.Emit

universe u v w

/-! ## §1. Passes that may fail. -/

/-- A pass over a list succeeds exactly if every item does. -/
theorem mapM_ok_iff {α : Type u} {β : Type v} {ε : Type w} {f : α → Except ε β} {l : List α}
    {r : List β} : l.mapM f = .ok r ↔ List.Forall₂ (fun a b => f a = .ok b) l r := by
  induction l generalizing r with
  | nil =>
    rw [List.mapM_nil, List.forall₂_nil_left_iff]
    constructor
    · intro h
      exact (Except.ok.inj h).symm
    · intro h
      rw [h]
      rfl
  | cons a rest ih =>
    -- The pass stops at the first item that fails, so the rest is looked at only after it.
    rw [List.mapM_cons, List.forall₂_cons_left_iff, Fallible.bind_ok_iff]
    constructor
    · intro h
      obtain ⟨b, hb, hrest⟩ := h
      obtain ⟨bs, hbs, hr⟩ := Fallible.bind_ok_iff.1 hrest
      exact ⟨b, bs, hb, ih.1 hbs, (Except.ok.inj hr).symm⟩
    · intro h
      obtain ⟨b, bs, hb, hbs, hr⟩ := h
      exact ⟨b, hb, Fallible.bind_ok_iff.2 ⟨bs, ih.2 hbs, congrArg Except.ok hr.symm⟩⟩

/-- A pass succeeds if every item does, and only then. -/
theorem mapM_isOk_iff {α : Type u} {β : Type v} {ε : Type w} {f : α → Except ε β} {l : List α} :
    (∃ r, l.mapM f = .ok r) ↔ ∀ a ∈ l, ∃ b, f a = .ok b := by
  simp only [mapM_ok_iff]
  induction l with
  | nil => simp
  | cons a rest ih =>
    rw [List.forall_mem_cons, ← ih]
    simp only [List.forall₂_cons_left_iff]
    constructor
    · rintro ⟨_, b, r, hb, hr, -⟩
      exact ⟨⟨b, hb⟩, r, hr⟩
    · rintro ⟨⟨b, hb⟩, r, hr⟩
      exact ⟨b :: r, b, r, hb, hr, rfl⟩

/-- A pass that fails has failed at some item. -/
theorem exists_of_mapM_error {α : Type u} {β : Type v} {ε : Type w} {f : α → Except ε β}
    {l : List α} {e : ε} (h : l.mapM f = .error e) : ∃ a ∈ l, f a = .error e := by
  induction l with
  | nil => exact absurd h Fallible.pure_ne_error
  | cons a rest ih =>
    rw [List.mapM_cons, Fallible.bind_error_iff] at h
    rcases h with ha | ⟨b, -, hrest⟩
    · exact ⟨a, List.mem_cons_self, ha⟩
    · rcases Fallible.bind_error_iff.1 hrest with hrest | ⟨bs, -, hpure⟩
      · obtain ⟨d, hd, hfail⟩ := ih hrest
        exact ⟨d, List.mem_cons_of_mem a hd, hfail⟩
      · exact absurd hpure Fallible.pure_ne_error

/-- The results of a pass are those of its items. -/
theorem mem_results {α : Type u} {β : Type v} {ε : Type w} {f : α → Except ε β} {l : List α}
    {r : List β} (h : List.Forall₂ (fun a b => f a = .ok b) l r) {b : β} :
    b ∈ r ↔ ∃ a ∈ l, f a = .ok b := by
  induction h with
  | nil => simp
  | @cons a d l r hd _ ih =>
    rw [List.mem_cons, ih, List.exists_mem_cons_iff, hd, Except.ok.injEq, eq_comm (a := b)]

/-! ## §2. Whole classes. -/

/-- When a class is made, and of what. -/
theorem run_ok_iff [Template.Engine] {j : Job} {plan : Plan} {debug : Bool} {e : EmittedType} :
    run j plan debug = .ok e ↔ ∃ chips pieces,
      List.Forall₂ (fun id c => plannedChip j id = .ok c) plan.order chips ∧
      List.Forall₂ (fun c p => piece j c = .ok p) chips pieces ∧
      e = assemble j debug chips pieces := by
  simp only [← mapM_ok_iff]
  unfold run
  -- Either pass may fail, the second one only after the first one did not.
  rw [Fallible.bind_ok_iff]
  constructor
  · intro h
    obtain ⟨chips, hchips, hrest⟩ := h
    obtain ⟨pieces, hpieces, he⟩ := Fallible.bind_ok_iff.1 hrest
    exact ⟨chips, pieces, hchips, hpieces, (Except.ok.inj he).symm⟩
  · intro h
    obtain ⟨chips, pieces, hchips, hpieces, he⟩ := h
    exact ⟨chips, hchips, Fallible.bind_ok_iff.2 ⟨pieces, hpieces, congrArg Except.ok he.symm⟩⟩

theorem plannedChip_ok_iff {j : Job} {id : Name} {c : Chip} :
    plannedChip j id = .ok c ↔ j.type.content.chip? id = some c := by
  unfold plannedChip
  cases j.type.content.chip? id <;> simp

/-- The chips of a plan are those that stand under its names. -/
theorem mem_planned {j : Job} {order : List Name} {chips : List Chip}
    (h : List.Forall₂ (fun id c => plannedChip j id = .ok c) order chips) {c : Chip} :
    c ∈ chips ↔ j.type.content.chip? c.id = some c ∧ c.id ∈ order := by
  induction h with
  | nil => simp
  | @cons id d order chips hd _ ih =>
    rw [plannedChip_ok_iff] at hd
    obtain rfl := Content.id_of_chip? hd
    rw [List.mem_cons, List.mem_cons, ih]
    constructor
    · rintro (rfl | ⟨hc, hmem⟩)
      · exact ⟨hd, Or.inl rfl⟩
      · exact ⟨hc, Or.inr hmem⟩
    · rintro ⟨hc, hid | hmem⟩
      · -- One name does not stand for two chips.
        exact Or.inl (Option.some.inj (hc.symm.trans (hid ▸ hd)))
      · exact Or.inr ⟨hc, hmem⟩

theorem planned_ids {j : Job} {order : List Name} {chips : List Chip}
    (h : List.Forall₂ (fun id c => plannedChip j id = .ok c) order chips) :
    chips.map (·.id) = order := by
  induction h with
  | nil => rfl
  | cons hc _ ih => rw [List.map_cons, ih, Content.id_of_chip? (plannedChip_ok_iff.1 hc)]

/-- The chips of the plan of a content are its wired ones, each of them once. -/
theorem planned_wired {j : Job} {settings : CompileSettings} {chips : List Chip}
    (h : List.Forall₂ (fun id c => plannedChip j id = .ok c)
      (j.type.content.plan j.owner settings).order chips) :
    chips.Nodup ∧ ∀ c, c ∈ chips ↔ j.type.content.Wired c := by
  constructor
  · -- Their names are different, so the chips are.
    have hids : (chips.map (·.id)).Nodup := planned_ids h ▸ Content.plan_order_nodup _ _ _
    exact hids.of_map _
  · intro c
    rw [mem_planned h, Content.mem_plan_order]
    constructor
    · intro hc
      obtain ⟨hfound, d, hd, hid⟩ := hc
      have hsame : c = d := Option.some.inj (hfound.symm.trans (hid ▸ hd.1))
      exact hsame ▸ hd
    · intro hc
      exact ⟨hc.1, c, hc, rfl⟩

/-! ## §3. Chips. -/

variable [Template.Engine]

/-- The statements of a chip itself: its inline code, or the call of its object. -/
inductive IsBody (j : Job) (c : Chip) : List String → Prop where
  | code {t : ChipType} {code text : String} (known : j.types.find? c.type = some t)
      (inline : t.inlineCode? = some code)
      (written : Templates.writeCode c.type.text code (codeVariables j c t) = .ok text) :
      IsBody j c (codeLines text)
  | call {t : ChipType} (known : j.types.find? c.type = some t)
      (composite : t.inlineCode? = none) : IsBody j c (callLines c t)

/-- What a chip contributes: the inline code of its type, or the call of an object. -/
theorem piece_cases {j : Job} {c : Chip} {p : Piece} (h : piece j c = .ok p) :
    ∃ t, j.types.find? c.type = some t ∧
      ((∃ code text, t.inlineCode? = some code ∧
          Templates.writeCode c.type.text code (codeVariables j c t) = .ok text ∧
          p = ⟨bindingsOf j c, none, none,
            ⟨c.type.text, c.id.text, "Chip Code", codeLines text ++ wiresFrom j c.id, true⟩⟩) ∨
        (t.inlineCode? = none ∧ p = composite j c t)) := by
  unfold piece at h
  split at h
  · exact absurd h (by simp)
  · rename_i t ht
    refine ⟨t, ht, ?_⟩
    split at h
    · -- Inline code is a template, and writing it may fail.
      rename_i code hcode
      unfold standard at h
      obtain ⟨text, hwritten, hp⟩ := Fallible.bind_ok_iff.1 h
      exact Or.inl ⟨code, text, hcode, hwritten, (Except.ok.inj hp).symm⟩
    · rename_i hcode
      exact Or.inr ⟨hcode, (Except.ok.inj h).symm⟩

/-- What a chip of a composite type contributes. -/
theorem piece_composite {j : Job} {c : Chip} {t : ChipType} (ht : j.types.find? c.type = some t)
    (hcode : t.inlineCode? = none) : piece j c = .ok (composite j c t) := by
  simp only [piece, ht, hcode]

/-- The pieces of a class are those of the wired chips. -/
theorem mem_pieces {j : Job} {settings : CompileSettings} {chips : List Chip} {pieces : List Piece}
    (hchips : List.Forall₂ (fun id c => plannedChip j id = .ok c)
      (j.type.content.plan j.owner settings).order chips)
    (hpieces : List.Forall₂ (fun c p => piece j c = .ok p) chips pieces) {p : Piece} :
    p ∈ pieces ↔ ∃ c, j.type.content.Wired c ∧ piece j c = .ok p := by
  rw [mem_results hpieces]
  exact exists_congr fun c => and_congr_left' ((planned_wired hchips).2 c)

/-- What a chip contributes is a block with its body and the statements of its wires. -/
theorem piece_ok {j : Job} {c : Chip} {p : Piece} (h : piece j c = .ok p) :
    ∃ body, IsBody j c body ∧ p.block.id = c.id.text ∧ p.block.type = c.type.text ∧
      p.block.lines = body ++ wiresFrom j c.id := by
  obtain ⟨t, ht, ⟨code, text, hcode, hwritten, rfl⟩ | ⟨hcode, rfl⟩⟩ := piece_cases h
  · exact ⟨codeLines text, .code ht hcode hwritten, rfl, rfl, rfl⟩
  · exact ⟨callLines c t, .call ht hcode, rfl, rfl, rfl⟩

/-- A chip with a body contributes something. -/
theorem piece_of_isBody {j : Job} {c : Chip} {body : List String} (h : IsBody j c body) :
    ∃ p, piece j c = .ok p := by
  cases h with
  | @code t code text known inline written =>
    have hpiece : piece j c = standard j c t code := by simp only [piece, known, inline]
    rw [hpiece]
    unfold standard
    rw [written]
    exact ⟨_, rfl⟩
  | @call t known composite =>
    have hpiece : piece j c = .ok (Emit.composite j c t) := by simp only [piece, known, composite]
    exact ⟨_, hpiece⟩

/-- With the plan of its content, the class of a type is made exactly if every wired chip has a
body. -/
theorem run_isOk_iff {j : Job} {settings : CompileSettings} {debug : Bool} :
    (∃ e, run j (j.type.content.plan j.owner settings) debug = .ok e) ↔
      ∀ c, j.type.content.Wired c → ∃ body, IsBody j c body := by
  constructor
  · rintro ⟨e, he⟩ c hc
    -- A wired chip is in the plan, so it contributed something.
    obtain ⟨chips, pieces, hchips, hpieces, -⟩ := run_ok_iff.1 he
    have hid : c.id ∈ (j.type.content.plan j.owner settings).order :=
      Content.mem_plan_order.2 ⟨c, hc, rfl⟩
    have hmem : c ∈ chips := (mem_planned hchips).2 ⟨hc.1, hid⟩
    obtain ⟨p, hp⟩ := mapM_isOk_iff.1 ⟨pieces, mapM_ok_iff.2 hpieces⟩ c hmem
    obtain ⟨body, hbody, -⟩ := piece_ok hp
    exact ⟨body, hbody⟩
  · intro h
    -- First the chips of the plan are all found, and then all of them have bodies.
    have hchips : ∀ id ∈ (j.type.content.plan j.owner settings).order,
        ∃ c, plannedChip j id = .ok c := by
      intro id hid
      obtain ⟨c, hc, rfl⟩ := Content.mem_plan_order.1 hid
      exact ⟨c, plannedChip_ok_iff.2 hc.1⟩
    obtain ⟨chips, hplanned⟩ := mapM_isOk_iff.2 hchips
    have hpieces : ∀ c ∈ chips, ∃ p, piece j c = .ok p := by
      intro c hc
      obtain ⟨hfound, hid⟩ := (mem_planned (mapM_ok_iff.1 hplanned)).1 hc
      obtain ⟨c', hwired, hid'⟩ := Content.mem_plan_order.1 hid
      have hsame : c = c' := Option.some.inj (hfound.symm.trans (hid' ▸ hwired.1))
      obtain ⟨body, hbody⟩ := h c (hsame ▸ hwired)
      exact piece_of_isBody hbody
    obtain ⟨pieces, hpieces⟩ := mapM_isOk_iff.2 hpieces
    exact ⟨_, run_ok_iff.2 ⟨chips, pieces, mapM_ok_iff.1 hplanned, mapM_ok_iff.1 hpieces, rfl⟩⟩

end LogicBoard.Emit
