/-
  LogicBoard.Proofs.Routing.Grid
  ────────────────────────────────
  **CELLS OF A GRID.**

  What a grid holds is told by rows and columns, and a place stands for one
  row and one column.  On a grid with no more cells than places of 32 bits
  can count, every cell has a place of its own, so the grid behaves like a
  function on its cells.  On a larger one some cell has no place at all.

  Main statements:
    • `value?_change`, `at?_modify` — what a change leaves in a row and a
      column, and at a place,
    • `place?_eq_some_iff` — the places of cells,
    • `place?_inj`, `exists_place?_eq_none` — when cells have places of their
      own, and when they do not,
    • `ext_at?` — a grid is determined by its edges and its values,
    • `card_le` — how many cells there are.
-/
import Mathlib.Data.Finset.Card
import Mathlib.Data.Finset.Prod
import LogicBoard.Routing.Grid

namespace LogicBoard.Grid

universe u v

variable {α : Type u}

/-! ## §1. Rows and columns. -/

theorem value?_ofSize (width height : Nat) (a : α) (row column : Nat) :
    (ofSize width height a).value? row column
      = if row < height ∧ column < width then some a else none := by
  unfold value? ofSize
  dsimp only
  rw [Vector.getElem?_replicate]
  by_cases hrow : row < height
  · rw [if_pos hrow, Option.bind_some, Vector.getElem?_replicate]
    simp [hrow]
  · rw [if_neg hrow, if_neg fun h => hrow h.1]
    rfl

/-- The rows and columns of a grid have values, and no others. -/
theorem isSome_value? {g : Grid α} {row column : Nat} :
    (g.value? row column).isSome = true ↔ row < g.height ∧ column < g.width := by
  unfold value?
  by_cases hrow : row < g.height
  · rw [Vector.getElem?_eq_getElem hrow, Option.bind_some]
    simp [hrow]
  · rw [Vector.getElem?_eq_none (Nat.le_of_not_lt hrow)]
    simp [hrow]

theorem getElem?_changeEntry {n : Nat} (v : Vector α n) (i : Nat) (f : α → α) (k : Nat) :
    (changeEntry v i f)[k]? = if i = k then v[k]?.map f else v[k]? := by
  rw [← Vector.getElem?_toArray, ← Vector.getElem?_toArray]
  exact Array.getElem?_modify

/-- A change leaves the edges where they are. -/
theorem change_size (g : Grid α) (row column : Nat) (f : α → α) :
    (g.change row column f).width = g.width ∧ (g.change row column f).height = g.height :=
  ⟨rfl, rfl⟩

/-- A change changes the value in its row and column and no other. -/
theorem value?_change (g : Grid α) (row column : Nat) (f : α → α) (row' column' : Nat) :
    (g.change row column f).value? row' column'
      = if row = row' ∧ column = column' then (g.value? row' column').map f
        else g.value? row' column' := by
  obtain ⟨width, height, cells⟩ := g
  unfold value? change
  dsimp only
  rw [getElem?_changeEntry]
  by_cases hrow : row = row'
  · subst hrow
    rw [if_pos rfl]
    cases cells[row]? with
    | none => simp
    | some entries =>
      rw [Option.map_some, Option.bind_some, Option.bind_some, getElem?_changeEntry]
      simp
  · rw [if_neg hrow, if_neg fun h => hrow h.1]

/-- A grid is determined by its edges and its values. -/
theorem ext_value? {g h : Grid α} (hsize : g.width = h.width ∧ g.height = h.height)
    (hentry : ∀ row column, g.value? row column = h.value? row column) : g = h := by
  obtain ⟨width, height, cells⟩ := g
  obtain ⟨width', height', cells'⟩ := h
  obtain ⟨rfl, rfl⟩ : width = width' ∧ height = height' := hsize
  suffices hcells : cells = cells' by rw [hcells]
  refine Vector.ext fun row hrow => Vector.ext fun column hcolumn => ?_
  have hvalue := hentry row column
  unfold value? at hvalue
  simpa [hrow, hcolumn] using hvalue

theorem covers_iff {g : Grid α} {p : Vec} :
    g.covers p = true ↔ (0 ≤ p.x ∧ p.x < g.width) ∧ (0 ≤ p.y ∧ p.y < g.height) := by
  unfold covers
  simp only [Bool.and_eq_true, decide_eq_true_eq]

/-- Which cells there are depends on the edges only. -/
theorem covers_congr {β : Type v} {g : Grid α} {h : Grid β}
    (hsize : g.width = h.width ∧ g.height = h.height) (p : Vec) : g.covers p = h.covers p := by
  rw [Bool.eq_iff_iff, covers_iff, covers_iff, hsize.1, hsize.2]

/-- A set of cells of a grid is no larger than the grid. -/
theorem card_le {g : Grid α} {s : Finset Vec} (h : ∀ p ∈ s, g.covers p = true) :
    s.card ≤ g.width * g.height := by
  have hcard : (Finset.range g.width ×ˢ Finset.range g.height).card = g.width * g.height := by
    rw [Finset.card_product, Finset.card_range, Finset.card_range]
  rw [← hcard]
  refine Finset.card_le_card_of_injOn (fun p => (p.x.toNat, p.y.toNat)) ?_ ?_
  · intro p hp
    obtain ⟨hx, hy⟩ := covers_iff.1 (h p hp)
    refine Finset.mem_coe.2 (Finset.mem_product.2 ⟨?_, ?_⟩)
    · exact Finset.mem_range.2 (by dsimp only; omega)
    · exact Finset.mem_range.2 (by dsimp only; omega)
  · intro p hp q hq hpq
    obtain ⟨hpx, hpy⟩ := covers_iff.1 (h p hp)
    obtain ⟨hqx, hqy⟩ := covers_iff.1 (h q hq)
    obtain ⟨hx, hy⟩ := Prod.mk.inj hpq
    ext <;> omega

/-! ## §2. Places. -/

/-- What a number of 32 bits is left of a number: it differs by a multiple of all that such numbers
can count. -/
theorem wrapped_iff {n : Int} {i : Nat} :
    (Int32.ofInt n).toInt.toNat? = some i ↔ i < 2 ^ 31 ∧ ∃ k : Int, n = i + k * 2 ^ 32 := by
  have htoNat : ∀ m : Int, m.toNat? = some i ↔ m = i := by
    intro m
    cases m with
    | ofNat m =>
      rw [Int.toNat?, Option.some.injEq]
      exact Int.ofNat_inj.symm
    | negSucc m => simp [Int.toNat?]
  rw [Int32.toInt_ofInt, show Int32.size = 4294967296 from rfl, Int.bmod_def, htoNat]
  constructor
  · intro h
    refine ⟨by split at h <;> omega, (n - i) / 2 ^ 32, ?_⟩
    split at h <;> omega
  · rintro ⟨hi, k, rfl⟩
    split <;> omega

/-- The places of cells. -/
theorem place?_eq_some_iff {g : Grid α} {p : Vec} {i : Nat} :
    g.place? p = some i ↔
      g.covers p = true ∧ i < 2 ^ 31 ∧ ∃ k : Int, p.y * g.width + p.x = i + k * 2 ^ 32 := by
  unfold place?
  split
  · rename_i hcovers
    rw [wrapped_iff]
    exact ⟨fun h => ⟨hcovers, h⟩, fun h => h.2⟩
  · rename_i hcovers
    exact iff_of_false (by simp) fun h => hcovers h.1

/-- A cell of the rectangle is counted before the rectangle is used up. -/
theorem count_bounds {g : Grid α} {p : Vec} (h : g.covers p = true) :
    0 ≤ p.y * g.width + p.x ∧ p.y * g.width + p.x < g.width * g.height := by
  obtain ⟨hx, hy⟩ := covers_iff.1 h
  have hrows : (p.y + 1) * g.width ≤ g.height * g.width :=
    Int.mul_le_mul_of_nonneg_right (by omega) (by omega)
  have hbefore : 0 ≤ p.y * g.width := Int.mul_nonneg hy.1 (by omega)
  rw [Int.add_mul, Int.one_mul] at hrows
  rw [Int.mul_comm (g.width : Int) g.height]
  omega

theorem lt_of_place? {g : Grid α} {p : Vec} {i : Nat} (h : g.place? p = some i) :
    i < g.width * g.height := by
  obtain ⟨hcovers, hi, k, hk⟩ := place?_eq_some_iff.1 h
  obtain ⟨hlow, hhigh⟩ := count_bounds hcovers
  -- Counting wraps around downwards only, as no cell is counted below zero.
  have hfit : (i : Int) < (g.width * g.height : Nat) := by
    push_cast
    omega
  exact Int.ofNat_lt.1 hfit

theorem contains_iff {g : Grid α} {p : Vec} : g.contains p = true ↔ ∃ i, g.place? p = some i := by
  unfold contains
  exact Option.isSome_iff_exists

theorem covers_of_contains {g : Grid α} {p : Vec} (h : g.contains p = true) :
    g.covers p = true := by
  obtain ⟨i, hi⟩ := contains_iff.1 h
  exact (place?_eq_some_iff.1 hi).1

/-- The places depend on the edges only. -/
theorem place?_congr {β : Type v} {g : Grid α} {h : Grid β}
    (hsize : g.width = h.width ∧ g.height = h.height) (p : Vec) : g.place? p = h.place? p := by
  unfold place?
  rw [covers_congr hsize, hsize.1]

/-- On a grid whose cells can be counted, every cell has the place at which it is counted. -/
theorem place?_eq {g : Grid α} (hcount : g.width * g.height ≤ 2 ^ 31) {p : Vec}
    (h : g.covers p = true) : g.place? p = some (p.y * g.width + p.x).toNat := by
  obtain ⟨hlow, hhigh⟩ := count_bounds h
  have hcount' : (g.width : Int) * g.height ≤ 2 ^ 31 := by exact_mod_cast hcount
  exact place?_eq_some_iff.2 ⟨h, by omega, 0, by omega⟩

/-- On a grid whose cells can be counted, different cells have different places. -/
theorem place?_inj {g : Grid α} (hcount : g.width * g.height ≤ 2 ^ 31) {p q : Vec} {i : Nat}
    (hp : g.place? p = some i) (hq : g.place? q = some i) : p = q := by
  have hpcovers := (place?_eq_some_iff.1 hp).1
  have hqcovers := (place?_eq_some_iff.1 hq).1
  obtain ⟨hpx, hpy⟩ := covers_iff.1 hpcovers
  obtain ⟨hqx, hqy⟩ := covers_iff.1 hqcovers
  obtain ⟨hplow, -⟩ := count_bounds hpcovers
  obtain ⟨hqlow, -⟩ := count_bounds hqcovers
  rw [place?_eq hcount hpcovers] at hp
  rw [place?_eq hcount hqcovers] at hq
  have hsame : p.y * g.width + p.x = q.y * g.width + q.x := by
    have hnat := Option.some.inj (hp.trans hq.symm)
    omega
  -- The place determines the row, and with it the column.
  have hrow : p.y = q.y := by
    have hdiv := congrArg (· / (g.width : Int)) hsame
    have hwidth : (g.width : Int) ≠ 0 := by omega
    simpa only [Int.mul_comm _ (g.width : Int), Int.add_comm _ p.x, Int.add_comm _ q.x,
      Int.add_mul_ediv_left _ _ hwidth, Int.ediv_eq_zero_of_lt hpx.1 hpx.2,
      Int.ediv_eq_zero_of_lt hqx.1 hqx.2, Int.zero_add] using hdiv
  rw [hrow] at hsame
  ext
  · omega
  · exact hrow

/-- On a grid with too many cells to be counted, some cell has no place. -/
theorem exists_place?_eq_none {g : Grid α} (hcount : 2 ^ 31 < g.width * g.height) :
    ∃ p, g.covers p = true ∧ g.place? p = none := by
  have hwidth : 0 < g.width := Nat.pos_of_mul_pos_right (Nat.zero_lt_of_lt hcount)
  -- The first cell that is counted with a negative number.
  refine ⟨⟨(2 ^ 31 % g.width : Nat), (2 ^ 31 / g.width : Nat)⟩, covers_iff.2 ?_, ?_⟩
  · have hcolumn : 2 ^ 31 % g.width < g.width := Nat.mod_lt _ hwidth
    have hrow : 2 ^ 31 / g.width < g.height := Nat.div_lt_of_lt_mul hcount
    exact ⟨⟨Int.natCast_nonneg _, Int.ofNat_lt.2 hcolumn⟩,
      ⟨Int.natCast_nonneg _, Int.ofNat_lt.2 hrow⟩⟩
  · have hplace : ((2 ^ 31 / g.width : Nat) : Int) * g.width + (2 ^ 31 % g.width : Nat) = 2 ^ 31 := by
      have hnat : 2 ^ 31 / g.width * g.width + 2 ^ 31 % g.width = 2 ^ 31 := by
        rw [Nat.mul_comm]
        exact Nat.div_add_mod _ _
      exact_mod_cast hnat
    rw [Option.eq_none_iff_forall_ne_some]
    intro i hi
    obtain ⟨-, hlt, k, hk⟩ := place?_eq_some_iff.1 hi
    dsimp only at hk
    rw [hplace] at hk
    omega

/-! ## §3. Values at places. -/

theorem isSome_at? {g : Grid α} {i : Nat} (h : i < g.width * g.height) :
    (g.at? i).isSome = true := by
  have hwidth : 0 < g.width := Nat.pos_of_mul_pos_right (Nat.zero_lt_of_lt h)
  exact isSome_value?.2 ⟨Nat.div_lt_of_lt_mul h, Nat.mod_lt _ hwidth⟩

theorem at?_ofSize {width height : Nat} (a : α) {i : Nat} (h : i < width * height) :
    (ofSize width height a).at? i = some a := by
  have hwidth : 0 < width := Nat.pos_of_mul_pos_right (Nat.zero_lt_of_lt h)
  unfold at?
  rw [value?_ofSize]
  exact if_pos ⟨Nat.div_lt_of_lt_mul h, Nat.mod_lt _ hwidth⟩

/-- A grid is determined by its edges and the values at its places. -/
theorem ext_at? {g h : Grid α} (hsize : g.width = h.width ∧ g.height = h.height)
    (hat : ∀ i, i < g.width * g.height → g.at? i = h.at? i) : g = h := by
  refine ext_value? hsize fun row column => ?_
  by_cases hin : row < g.height ∧ column < g.width
  · obtain ⟨hrow, hcolumn⟩ := hin
    have hplace : row * g.width + column < g.width * g.height := by
      calc row * g.width + column < row * g.width + g.width := by omega
        _ = (row + 1) * g.width := by rw [Nat.add_mul, Nat.one_mul]
        _ ≤ g.height * g.width := Nat.mul_le_mul_right _ hrow
        _ = g.width * g.height := Nat.mul_comm _ _
    have hwidth : 0 < g.width := by omega
    have hvalue := hat _ hplace
    unfold at? at hvalue
    rw [← hsize.1, Nat.mul_comm row, Nat.mul_add_div hwidth, Nat.div_eq_of_lt hcolumn,
      Nat.add_zero, Nat.mul_add_mod, Nat.mod_eq_of_lt hcolumn] at hvalue
    exact hvalue
  · -- Beyond the edges neither grid has a value.
    have hg : g.value? row column = none := by
      rw [← Option.not_isSome_iff_eq_none, isSome_value?]
      exact hin
    have hh : h.value? row column = none := by
      rw [← Option.not_isSome_iff_eq_none, isSome_value?, ← hsize.1, ← hsize.2]
      exact hin
    rw [hg, hh]

/-- Changing a value leaves the edges where they are. -/
theorem modify_size (g : Grid α) (p : Vec) (f : α → α) :
    (g.modify p f).width = g.width ∧ (g.modify p f).height = g.height := by
  unfold modify
  split
  · exact ⟨rfl, rfl⟩
  · exact g.change_size _ _ f

/-- Changing the value of a cell changes what is at its place and nothing else. -/
theorem at?_modify (g : Grid α) (p : Vec) (f : α → α) (i : Nat) :
    (g.modify p f).at? i = if g.place? p = some i then (g.at? i).map f else g.at? i := by
  have hwidth : (g.modify p f).width = g.width := (g.modify_size p f).1
  unfold at?
  rw [hwidth]
  unfold modify
  cases hp : g.place? p with
  | none => simp
  | some k =>
    dsimp only
    rw [value?_change]
    -- A place is determined by its row and its column.
    have hplace : (k / g.width = i / g.width ∧ k % g.width = i % g.width) ↔ some k = some i := by
      constructor
      · rintro ⟨hrow, hcolumn⟩
        rw [← Nat.div_add_mod k g.width, hrow, hcolumn, Nat.div_add_mod]
      · intro hki
        rw [Option.some.inj hki]
        exact ⟨rfl, rfl⟩
    simp only [hplace]

/-- What leaves the edges where they are does so however often it is done. -/
theorem foldl_size {β : Type v} {f : Grid α → β → Grid α}
    (hf : ∀ g a, (f g a).width = g.width ∧ (f g a).height = g.height) (l : List β) (g : Grid α) :
    (l.foldl f g).width = g.width ∧ (l.foldl f g).height = g.height := by
  refine List.foldlRecOn l f (motive := fun h => h.width = g.width ∧ h.height = g.height)
    ⟨rfl, rfl⟩ ?_
  intro h hh a _
  rw [(hf h a).1, (hf h a).2]
  exact hh

/-- Changing several cells in a way that makes no difference the second time changes what is at
their places, however many of them share one and in whichever order. -/
theorem at?_foldl_modify {f : α → α} (hf : ∀ a, f (f a) = f a) (cells : List Vec) (g : Grid α)
    (i : Nat) : (cells.foldl (fun g p => g.modify p f) g).at? i
      = if ∃ p ∈ cells, g.place? p = some i then (g.at? i).map f else g.at? i := by
  induction cells generalizing g with
  | nil => simp
  | cons p rest ih =>
    have hplaces : ∀ q, (g.modify p f).place? q = g.place? q := place?_congr (g.modify_size p f)
    rw [List.foldl_cons, ih, at?_modify]
    simp only [hplaces, List.exists_mem_cons_iff]
    by_cases hp : g.place? p = some i
    · rw [if_pos hp, if_pos (Or.inl hp), Option.map_map]
      simp only [Function.comp_def, hf, ite_self]
    · simp only [hp, if_false, false_or]

/-! ## §4. Values of cells. -/

theorem get?_eq {g : Grid α} {p : Vec} {i : Nat} (h : g.place? p = some i) :
    g.get? p = g.at? i := by
  unfold get?
  rw [h, Option.bind_some]

/-- The cells with a place are those with a value. -/
theorem get?_eq_none_iff {g : Grid α} {p : Vec} : g.get? p = none ↔ g.contains p = false := by
  unfold get? contains
  cases hp : g.place? p with
  | none => simp
  | some i =>
    have hvalue := isSome_at? (lt_of_place? hp)
    rw [Option.bind_some, Option.isSome_some, ← Option.not_isSome_iff_eq_none, hvalue]
    simp

theorem contains_of_get? {g : Grid α} {p : Vec} {a : α} (h : g.get? p = some a) :
    g.contains p = true := by
  cases hp : g.contains p with
  | true => rfl
  | false =>
    rw [get?_eq_none_iff.2 hp] at h
    exact absurd h (by simp)

end LogicBoard.Grid
