/-
  LogicBoard.Proofs.Fallible
  ────────────────────────────────
  **STEPS THAT MAY FAIL.**

  A step in an error monad gives a result or stops all that follows.  A
  result of several steps is therefore made of results of each of them, and
  what every step keeps is kept by a whole run.

  Main statements:
    • `bind_ok_iff`, `map_ok_iff` — what a result is made of,
    • `bind_error_iff`, `map_error_iff` — where an error comes from,
    • `foldlM_induction` — a run that succeeds keeps what its steps keep,
    • `foldlM_isOk` — a run succeeds if no step can fail,
    • `foldlM_congr` — runs that agree step by step,
    • `forM_ok` — a list passes a check if its items do,
    • `mapM_eq_map`, `mapM_map` — a list is read, or read back, if its items are,
    • `mapM_congr`, `mapM_eq_map_mapM` — passes that agree item by item,
    • `mem_mapM` — what is read from a list is read from its items.
-/
namespace LogicBoard.Fallible

universe u v w x

variable {ε : Type u} {α β : Type v}

/-! ## §1. Two steps. -/

theorem ok_bind (a : α) (f : α → Except ε β) : (Except.ok a >>= f) = f a := rfl

theorem bind_ok_iff {x : Except ε α} {f : α → Except ε β} {b : β} :
    (x >>= f) = .ok b ↔ ∃ a, x = .ok a ∧ f a = .ok b := by
  cases x with
  | error err =>
    constructor
    · intro h
      exact absurd (show Except.error err = Except.ok b from h) (by simp)
    · rintro ⟨a, h, -⟩
      exact absurd h (by simp)
  | ok a =>
    constructor
    · intro h
      exact ⟨a, rfl, h⟩
    · rintro ⟨a', h, hb⟩
      obtain rfl := Except.ok.inj h
      exact hb

theorem bind_error_iff {x : Except ε α} {f : α → Except ε β} {e : ε} :
    (x >>= f) = .error e ↔ x = .error e ∨ ∃ a, x = .ok a ∧ f a = .error e := by
  cases x with
  | error err =>
    show Except.error err = Except.error e ↔ _
    simp
  | ok a =>
    show f a = .error e ↔ _
    simp

theorem pure_ne_error {a : α} {e : ε} : (pure a : Except ε α) ≠ .error e := by
  intro h
  exact absurd (show Except.ok a = Except.error e from h) (by simp)

theorem map_ok_iff {x : Except ε α} {f : α → β} {b : β} :
    x.map f = .ok b ↔ ∃ a, x = .ok a ∧ f a = b := by
  cases x <;> simp [Except.map]

theorem map_error_iff {x : Except ε α} {f : α → β} {e : ε} :
    x.map f = .error e ↔ x = .error e := by
  cases x <;> simp [Except.map]

/-! ## §2. Runs. -/

variable {σ : Type v} {ι : Type w} {step : σ → ι → Except ε σ} {P : σ → Prop}

/-- A run that succeeds keeps what its steps keep. -/
theorem foldlM_induction (hstep : ∀ s i s', P s → step s i = .ok s' → P s') {l : List ι} {s s' : σ}
    (hs : P s) (h : l.foldlM step s = .ok s') : P s' := by
  induction l generalizing s with
  | nil => exact Except.ok.inj h ▸ hs
  | cons i rest ih =>
    rw [List.foldlM_cons, bind_ok_iff] at h
    obtain ⟨t, hi, hrest⟩ := h
    exact ih (hstep s i t hs hi) hrest

/-- A run succeeds if no step can fail. -/
theorem foldlM_isOk {l : List ι} (hstep : ∀ i ∈ l, ∀ s, P s → ∃ s', step s i = .ok s' ∧ P s')
    {s : σ} (hs : P s) : ∃ s', l.foldlM step s = .ok s' ∧ P s' := by
  induction l generalizing s with
  | nil => exact ⟨s, rfl, hs⟩
  | cons i rest ih =>
    obtain ⟨hfirst, hrest⟩ := List.forall_mem_cons.1 hstep
    obtain ⟨t, hi, ht⟩ := hfirst s hs
    obtain ⟨s', hrun, hs'⟩ := ih hrest ht
    refine ⟨s', ?_, hs'⟩
    rw [List.foldlM_cons, bind_ok_iff]
    exact ⟨t, hi, hrun⟩

/-- Runs whose steps agree on every item. -/
theorem foldlM_congr {step' : σ → ι → Except ε σ} {l : List ι} (s : σ)
    (h : ∀ i ∈ l, ∀ s, step s i = step' s i) : l.foldlM step s = l.foldlM step' s := by
  induction l generalizing s with
  | nil => rfl
  | cons i rest ih =>
    obtain ⟨hi, hrest⟩ := List.forall_mem_cons.1 h
    rw [List.foldlM_cons, List.foldlM_cons, hi]
    exact congrArg _ (funext fun t => ih t hrest)

/-- A list passes a check if its items do. -/
theorem forM_ok {check : ι → Except ε PUnit} {l : List ι} (h : ∀ i ∈ l, check i = .ok ⟨⟩) :
    l.forM check = .ok ⟨⟩ := by
  induction l with
  | nil => rfl
  | cons i rest ih =>
    obtain ⟨hi, hrest⟩ := List.forall_mem_cons.1 h
    show (check i >>= fun _ => rest.forM check) = .ok ⟨⟩
    rw [hi]
    exact ih hrest

/-! ## §3. Reading lists. -/

/-- A list is read if its items are. -/
theorem mapM_eq_map {m : Type v → Type w} [Monad m] [LawfulMonad m] {ι : Type v} {γ : Type x}
    {read : γ → m ι} {value : γ → ι} {l : List γ} (h : ∀ a ∈ l, read a = pure (value a)) :
    l.mapM read = pure (l.map value) := by
  induction l with
  | nil => rfl
  | cons a rest ih =>
    obtain ⟨ha, hrest⟩ := List.forall_mem_cons.1 h
    rw [List.mapM_cons, ha, ih hrest, pure_bind, pure_bind, List.map_cons]

/-- A list is read back if its items are. -/
theorem mapM_map {m : Type v → Type w} [Monad m] [LawfulMonad m] {ι : Type v} {γ : Type w}
    {read : γ → m ι} {write : ι → γ} {l : List ι} (h : ∀ a ∈ l, read (write a) = pure a) :
    (l.map write).mapM read = pure l := by
  have hmap : l.mapM (read ∘ write) = pure (l.map id) := mapM_eq_map h
  rw [List.mapM_map, hmap, List.map_id]

/-- A pass whose results are images of the results of another pass, item by item. -/
theorem mapM_eq_map_mapM {f : ι → Except ε α} {g : ι → Except ε β} {image : α → β} {l : List ι}
    (h : ∀ i ∈ l, g i = (f i).map image) : l.mapM g = (l.mapM f).map (List.map image) := by
  induction l with
  | nil => rfl
  | cons i rest ih =>
    obtain ⟨hi, hrest⟩ := List.forall_mem_cons.1 h
    rw [List.mapM_cons, List.mapM_cons, hi, ih hrest]
    cases f i with
    | error e => rfl
    | ok a => cases rest.mapM f <;> rfl

/-- Passes that agree on every item. -/
theorem mapM_congr {f g : ι → Except ε α} {l : List ι} (h : ∀ i ∈ l, f i = g i) :
    l.mapM f = l.mapM g := by
  induction l with
  | nil => rfl
  | cons i rest ih =>
    obtain ⟨hi, hrest⟩ := List.forall_mem_cons.1 h
    rw [List.mapM_cons, List.mapM_cons, hi, ih hrest]

/-- What is read from a list is read from one of its items. -/
theorem mem_mapM {α β : Type v} {read? : α → Option β} {l : List α} {bs : List β} {b : β}
    (h : l.mapM read? = some bs) (hb : b ∈ bs) : ∃ a ∈ l, read? a = some b := by
  induction l generalizing bs with
  | nil =>
    obtain rfl : [] = bs := Option.some.inj h
    exact absurd hb List.not_mem_nil
  | cons a rest ih =>
    rw [List.mapM_cons] at h
    simp only [Option.bind_eq_bind, Option.bind_eq_some_iff] at h
    obtain ⟨c, hc, cs, hcs, heq⟩ := h
    obtain rfl := Option.some.inj heq
    rcases List.mem_cons.1 hb with rfl | hmem
    · exact ⟨a, List.mem_cons_self, hc⟩
    · obtain ⟨d, hd, hread⟩ := ih hcs hmem
      exact ⟨d, List.mem_cons_of_mem _ hd, hread⟩

end LogicBoard.Fallible
