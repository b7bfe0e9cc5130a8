/-
  LogicBoard.Proofs.Registry.Shrinking
  ────────────────────────────────
  **HOW LARGE A TYPE MAY BE.**

  A custom type has to be smaller than the base type, or it could contain
  itself.  If it is asked to be larger, columns or rows are taken away one
  after the other.  What is left in the end can be said without the loop: the
  side that is shorter at first gets the greatest length with which the area
  is below that of the base type, and only if there is none, the other side
  is cut as well.

  Main statements:
    • `shrinks_fitBelow` — the loop comes to an end,
    • `Shrinks.isCut` — what is left is the largest that suits,
    • `setSize_largest` — the size that a type gets.
-/
import Mathlib.Order.Bounds.Defs
import LogicBoard.Proofs.Registry.Operation
import LogicBoard.Store.Memory

namespace LogicBoard

/-! ## §1. Sides. -/

namespace Vec

/-- At least one unit, and no more than another extent. -/
structure IsWithin (a most : Vec) : Prop where
  width : 1 ≤ a.x ∧ a.x ≤ most.x
  height : 1 ≤ a.y ∧ a.y ≤ most.y

theorem isWithin_clampVec (a : Vec) {most : Vec} (hx : 1 ≤ most.x) (hy : 1 ≤ most.y) :
    (a.clampVec .one most).IsWithin most := by
  constructor
  · show 1 ≤ max (min a.x most.x) 1 ∧ max (min a.x most.x) 1 ≤ most.x
    omega
  · show 1 ≤ max (min a.y most.y) 1 ∧ max (min a.y most.y) 1 ≤ most.y
    omega

theorem IsWithin.clampVec_eq {a most : Vec} (h : a.IsWithin most) : a.clampVec .one most = a := by
  obtain ⟨⟨hx, hx'⟩, hy, hy'⟩ := h
  ext
  · show max (min a.x most.x) 1 = a.x
    omega
  · show max (min a.y most.y) 1 = a.y
    omega

theorem IsWithin.trans {a b c : Vec} (hab : a.IsWithin b) (hbc : b.IsWithin c) : a.IsWithin c :=
  ⟨⟨hab.width.1, hab.width.2.trans hbc.width.2⟩, hab.height.1, hab.height.2.trans hbc.height.2⟩

/-- The side that is cut before the other one. -/
def first (a : Vec) (widthFirst : Bool) : Int := if widthFirst then a.x else a.y

/-- The side that is cut when nothing more can be cut from the first one. -/
def second (a : Vec) (widthFirst : Bool) : Int := if widthFirst then a.y else a.x

/-- Takes a column or a row away. -/
def cut (a : Vec) (column : Bool) : Vec := if column then ⟨a.x - 1, a.y⟩ else ⟨a.x, a.y - 1⟩

theorem area_eq (a : Vec) (widthFirst : Bool) :
    a.area = a.first widthFirst * a.second widthFirst := by
  cases widthFirst
  · exact Int.mul_comm _ _
  · rfl

theorem first_cut (a : Vec) (widthFirst : Bool) :
    (a.cut widthFirst).first widthFirst = a.first widthFirst - 1 := by
  cases widthFirst <;> rfl

theorem second_cut (a : Vec) (widthFirst : Bool) :
    (a.cut widthFirst).second widthFirst = a.second widthFirst := by
  cases widthFirst <;> rfl

theorem first_cut_not (a : Vec) (widthFirst : Bool) :
    (a.cut !widthFirst).first widthFirst = a.first widthFirst := by
  cases widthFirst <;> rfl

theorem second_cut_not (a : Vec) (widthFirst : Bool) :
    (a.cut !widthFirst).second widthFirst = a.second widthFirst - 1 := by
  cases widthFirst <;> rfl

theorem isWithin_iff {a most : Vec} (widthFirst : Bool) : a.IsWithin most ↔
    (1 ≤ a.first widthFirst ∧ a.first widthFirst ≤ most.first widthFirst) ∧
      (1 ≤ a.second widthFirst ∧ a.second widthFirst ≤ most.second widthFirst) := by
  cases widthFirst
  · exact ⟨fun h => ⟨h.height, h.width⟩, fun h => ⟨h.2, h.1⟩⟩
  · exact ⟨fun h => ⟨h.width, h.height⟩, fun h => ⟨h.1, h.2⟩⟩

theorem first_one (widthFirst : Bool) : one.first widthFirst = 1 := by
  cases widthFirst <;> rfl

theorem second_one (widthFirst : Bool) : one.second widthFirst = 1 := by
  cases widthFirst <;> rfl

/-- An extent is given by its sides. -/
theorem ext_sides {a b : Vec} {widthFirst : Bool} (hfirst : a.first widthFirst = b.first widthFirst)
    (hsecond : a.second widthFirst = b.second widthFirst) : a = b := by
  cases widthFirst
  · exact Vec.ext hsecond hfirst
  · exact Vec.ext hfirst hsecond

end Vec

namespace Registry

/-! ## §2. The loop. -/

/-- Columns or rows are taken away one after the other until the area is below the limit. -/
inductive Shrinks (limit : Int) (widthFirst : Bool) : Vec → Vec → Prop where
  | fits {size : Vec} (hbelow : size.area < limit) : Shrinks limit widthFirst size size
  | first {size final : Vec} (habove : limit ≤ size.area) (hfirst : 1 < size.first widthFirst)
      (rest : Shrinks limit widthFirst (size.cut widthFirst) final) :
      Shrinks limit widthFirst size final
  | second {size final : Vec} (habove : limit ≤ size.area)
      (hfirst : ¬ 1 < size.first widthFirst) (hsecond : 1 < size.second widthFirst)
      (rest : Shrinks limit widthFirst (size.cut !widthFirst) final) :
      Shrinks limit widthFirst size final
  /-- There is nothing to take away. -/
  | least {size : Vec} (habove : limit ≤ size.area) (hfirst : ¬ 1 < size.first widthFirst)
      (hsecond : ¬ 1 < size.second widthFirst) : Shrinks limit widthFirst size size

/-- The loop comes to an end. -/
theorem shrinks_fitBelow {limit : Int} {widthFirst : Bool} {size : Vec} (hx : 1 ≤ size.x)
    (hy : 1 ≤ size.y) : Shrinks limit widthFirst size (fitBelow limit widthFirst size) := by
  -- The cases are the branches of the loop, the width being first up to the fourth.
  induction size using fitBelow.induct limit widthFirst with
  | case1 size hbelow =>
    rw [fitBelow, if_pos hbelow]
    exact .fits hbelow
  | case2 size hlimit hwidth hx' ih =>
    subst hwidth
    rw [fitBelow, if_neg hlimit, if_pos rfl, dif_pos hx']
    exact .first (by omega) hx' (ih (show 1 ≤ size.x - 1 by omega) hy)
  | case3 size hlimit hwidth hx' hy' ih =>
    subst hwidth
    rw [fitBelow, if_neg hlimit, if_pos rfl, dif_neg hx', dif_pos hy']
    exact .second (by omega) hx' hy' (ih hx (show 1 ≤ size.y - 1 by omega))
  | case4 size hlimit hwidth hx' hy' =>
    subst hwidth
    rw [fitBelow, if_neg hlimit, if_pos rfl, dif_neg hx', dif_neg hy']
    exact .least (by omega) hx' hy'
  | case5 size hlimit hwidth hy' ih =>
    obtain rfl := Bool.eq_false_of_not_eq_true hwidth
    rw [fitBelow, if_neg hlimit, if_neg hwidth, dif_pos hy']
    exact .first (by omega) hy' (ih hx (show 1 ≤ size.y - 1 by omega))
  | case6 size hlimit hwidth hy' hx' ih =>
    obtain rfl := Bool.eq_false_of_not_eq_true hwidth
    rw [fitBelow, if_neg hlimit, if_neg hwidth, dif_neg hy', dif_pos hx']
    exact .second (by omega) hy' hx'.2 (ih (show 1 ≤ size.x - 1 by omega) hy)
  | case7 size hlimit hwidth hy' hx' =>
    obtain rfl := Bool.eq_false_of_not_eq_true hwidth
    rw [fitBelow, if_neg hlimit, if_neg hwidth, dif_neg hy', dif_neg hx']
    -- With no row to take away there is exactly one.
    have hx' : ¬ 1 < size.x := fun h => hx' ⟨by omega, h⟩
    exact .least (by omega) hy' hx'

/-- If the area is below the limit, nothing is taken away. -/
theorem Shrinks.eq_of_lt {limit : Int} {widthFirst : Bool} {size final : Vec}
    (h : Shrinks limit widthFirst size final) (hbelow : size.area < limit) : final = size := by
  cases h with
  | fits => rfl
  | first habove => exact absurd hbelow (Int.not_lt.2 habove)
  | second habove => exact absurd hbelow (Int.not_lt.2 habove)
  | least => rfl

/-! ## §3. What is left. -/

/-- A length for a side, no longer than before, with which the area is below the limit. -/
def Suits (limit side other length : Int) : Prop :=
  (1 ≤ length ∧ length ≤ side) ∧ length * other < limit

/-- What is left of two sides: no more is cut than is needed to have an area below the limit. -/
inductive IsCut (limit first second : Int) : Int → Int → Prop where
  /-- It is enough to cut the first side. -/
  | first {s : Int} (greatest : IsGreatest {s | Suits limit first second s} s) :
      IsCut limit first second s second
  /-- Nothing is left of the first side, and the second one is cut. -/
  | second {l : Int} (none : ∀ s, ¬ Suits limit first second s)
      (greatest : IsGreatest {l | Suits limit second 1 l} l) : IsCut limit first second 1 l
  /-- Nothing is left of either side. -/
  | least (none : ∀ s, ¬ Suits limit first second s)
      (none' : ∀ l, ¬ Suits limit second 1 l) : IsCut limit first second 1 1

/-- A length that is too long already may be left out. -/
theorem suits_pred_iff {limit side other : Int} (habove : limit ≤ side * other) (length : Int) :
    Suits limit (side - 1) other length ↔ Suits limit side other length := by
  unfold Suits
  constructor
  · rintro ⟨⟨hone, hside⟩, hbelow⟩
    exact ⟨⟨hone, by omega⟩, hbelow⟩
  · rintro ⟨⟨hone, hside⟩, hbelow⟩
    have hne : length ≠ side := by
      rintro rfl
      omega
    exact ⟨⟨hone, by omega⟩, hbelow⟩

/-- A side of length one cannot be cut. -/
theorem not_suits_one {limit other : Int} (habove : limit ≤ other) (length : Int) :
    ¬ Suits limit 1 other length := by
  rintro ⟨⟨hone, hside⟩, hbelow⟩
  obtain rfl : length = 1 := by omega
  omega

/-- The first side has lost one. -/
theorem IsCut.of_first {limit first second s l : Int} (habove : limit ≤ first * second)
    (h : IsCut limit (first - 1) second s l) : IsCut limit first second s l := by
  have hiff := suits_pred_iff habove
  cases h with
  | first greatest =>
    simp only [hiff] at greatest
    exact .first greatest
  | second hfirst greatest => exact .second (fun n hn => hfirst n ((hiff n).2 hn)) greatest
  | least hfirst hsecond => exact .least (fun n hn => hfirst n ((hiff n).2 hn)) hsecond

/-- Nothing is left of the first side, and the second side has lost one. -/
theorem IsCut.of_second {limit second s l : Int} (habove : limit ≤ second)
    (h : IsCut limit 1 (second - 1) s l) (hsecond : 1 < second) : IsCut limit 1 second s l := by
  have hiff : ∀ n, Suits limit (second - 1) 1 n ↔ Suits limit second 1 n :=
    suits_pred_iff (by omega)
  have hnone := not_suits_one habove
  cases h with
  | first greatest =>
    -- The second side has just become short enough, so it is the greatest length that suits.
    obtain ⟨⟨⟨hone, hside⟩, hbelow⟩, -⟩ := greatest
    obtain rfl : s = 1 := by omega
    refine .second hnone ⟨(hiff _).1 ⟨⟨by omega, Int.le_refl _⟩, by omega⟩, fun l hl => ?_⟩
    exact ((hiff l).2 hl).1.2
  | second _ greatest =>
    simp only [hiff] at greatest
    exact .second hnone greatest
  | least _ hsecond => exact .least hnone fun n hn => hsecond n ((hiff n).2 hn)

/-- Sides that are not cut have an area below the limit already. -/
theorem isCut_of_lt {limit first second : Int} (hfirst : 1 ≤ first)
    (h : first * second < limit) : IsCut limit first second first second :=
  .first ⟨⟨⟨hfirst, Int.le_refl _⟩, h⟩, fun _ hs => hs.1.2⟩

/-- What the loop ends with. -/
theorem Shrinks.isCut {limit : Int} {widthFirst : Bool} {size final : Vec}
    (h : Shrinks limit widthFirst size final) (hfirst : 1 ≤ size.first widthFirst)
    (hsecond : 1 ≤ size.second widthFirst) :
    IsCut limit (size.first widthFirst) (size.second widthFirst) (final.first widthFirst)
      (final.second widthFirst) := by
  induction h with
  | fits hbelow => exact isCut_of_lt hfirst (Vec.area_eq _ _ ▸ hbelow)
  | first habove hcut rest ih =>
    rw [Vec.area_eq _ widthFirst] at habove
    rw [Vec.first_cut, Vec.second_cut] at ih
    exact (ih (by omega) hsecond).of_first habove
  | @second size final habove hleft hcut rest ih =>
    -- The first side is down to one and stays so, and the area is the length of the second.
    rw [Vec.area_eq _ widthFirst] at habove
    rw [Vec.first_cut_not, Vec.second_cut_not] at ih
    have hone : size.first widthFirst = 1 := by omega
    rw [hone, Int.one_mul] at habove
    rw [hone] at ih ⊢
    exact (ih (by omega) (by omega)).of_second habove hcut
  | @least size habove hleft hright =>
    have hone : size.first widthFirst = 1 ∧ size.second widthFirst = 1 := by omega
    rw [Vec.area_eq _ widthFirst, hone.1, hone.2] at habove
    rw [hone.1, hone.2]
    exact .least (not_suits_one habove) (not_suits_one habove)

/-- What is left of a side is not longer than the side. -/
theorem IsCut.bounds {limit first second s l : Int} (h : IsCut limit first second s l)
    (hfirst : 1 ≤ first) (hsecond : 1 ≤ second) : (1 ≤ s ∧ s ≤ first) ∧ (1 ≤ l ∧ l ≤ second) := by
  cases h with
  | first greatest => exact ⟨greatest.1.1, hsecond, Int.le_refl _⟩
  | second _ greatest => exact ⟨⟨Int.le_refl _, hfirst⟩, greatest.1.1⟩
  | least => exact ⟨⟨Int.le_refl _, hfirst⟩, Int.le_refl _, hsecond⟩

/-- The area is below the limit, unless there is nothing left to cut. -/
theorem IsCut.area_lt {limit first second s l : Int} (h : IsCut limit first second s l) :
    s * l < limit ∨ (s = 1 ∧ l = 1) := by
  cases h with
  | first greatest => exact Or.inl greatest.1.2
  | second _ greatest => exact Or.inl (Int.mul_comm _ _ ▸ greatest.1.2)
  | least => exact Or.inr ⟨rfl, rfl⟩

/-! ## §4. Sizes of types. -/

universe u

variable {σ : Type u}

/-- The settings of the registry have been checked. -/
def IsConfigured (r : Registry σ) : Prop :=
  ∃ settings : Settings, settings.fault? = none ∧ r.baseMaxSize = settings.editor.baseMaxSize ∧
    r.route = settings.route

/-- The area that all types but the base type have to stay below. -/
def areaLimit (r : Registry σ) : Int := (r.types.get r.base).size.area

/-- What a type gets that is asked to have a size, which is one that the base type may have. -/
structure IsAllowed (r : Registry σ) (name : Name) (asked size : Vec) : Prop where
  kept : name = r.base ∨ asked.area < r.areaLimit → size = asked
  cut : name ≠ r.base → r.areaLimit ≤ asked.area →
    IsCut r.areaLimit (asked.first (asked.x < asked.y)) (asked.second (asked.x < asked.y))
      (size.first (asked.x < asked.y)) (size.second (asked.x < asked.y))
  ends : name ≠ r.base → Shrinks r.areaLimit (asked.x < asked.y) asked size
  below : name ≠ r.base → size.area < r.areaLimit ∨ size = .one

variable {r : Registry σ}

theorem IsConfigured.bounds (h : r.IsConfigured) :
    r.baseMaxSize.IsWithin largestSize ∧ 1 ≤ r.route.scale := by
  obtain ⟨settings, hfault, hsize, hroute⟩ := h
  rw [hsize, hroute]
  unfold Settings.fault? at hfault
  dsimp only at hfault
  -- The checks are made one after the other, and each of them leaves a bound behind.
  split at hfault
  · exact absurd hfault (by simp)
  rename_i hscale
  split at hfault
  · exact absurd hfault (by simp)
  rename_i hsmall
  split at hfault
  · exact absurd hfault (by simp)
  rename_i hlarge
  simp only [Bool.or_eq_true, decide_eq_true_eq, not_or, Int.not_lt] at hsmall hlarge hscale
  exact ⟨⟨⟨hsmall.1, hlarge.1⟩, hsmall.2, hlarge.2⟩, hscale⟩

theorem isAllowed_of_shrinks {name : Name} {asked size : Vec} (hname : name ≠ r.base)
    (hasked : asked.IsWithin r.baseMaxSize)
    (h : Shrinks r.areaLimit (asked.x < asked.y) asked size) : r.IsAllowed name asked size := by
  obtain ⟨hfirst, hsecond⟩ := (Vec.isWithin_iff (asked.x < asked.y)).1 hasked
  have hcut := h.isCut hfirst.1 hsecond.1
  constructor
  case kept =>
    rintro (hbase | hbelow)
    · exact absurd hbase hname
    · exact h.eq_of_lt hbelow
  case cut => exact fun _ _ => hcut
  case ends => exact fun _ => h
  case below =>
    intro _
    rcases hcut.area_lt with hbelow | ⟨hone, hone'⟩
    · exact Or.inl (Vec.area_eq size _ ▸ hbelow)
    · rw [← Vec.first_one (asked.x < asked.y)] at hone
      rw [← Vec.second_one (asked.x < asked.y)] at hone'
      exact Or.inr (Vec.ext_sides hone hone')

/-- A type gets a size that it may get. -/
theorem isAllowed_allowedSize (h : r.IsConfigured) (name : Name) (size : Vec) :
    r.IsAllowed name (size.clampVec .one r.baseMaxSize) (r.allowedSize name size) := by
  have hbase := h.bounds.1
  have hasked := size.isWithin_clampVec hbase.width.1 hbase.height.1
  unfold allowedSize
  dsimp only
  by_cases hname : name = r.base
  · rw [if_pos hname]
    exact ⟨fun _ => rfl, fun hne => absurd hname hne, fun hne => absurd hname hne,
      fun hne => absurd hname hne⟩
  · rw [if_neg hname]
    exact isAllowed_of_shrinks hname hasked (shrinks_fitBelow hasked.width.1 hasked.height.1)

theorem IsAllowed.isWithin {name : Name} {asked size most : Vec} (h : r.IsAllowed name asked size)
    (hasked : asked.IsWithin most) : size.IsWithin most := by
  by_cases hkept : name = r.base ∨ asked.area < r.areaLimit
  · rw [h.kept hkept]
    exact hasked
  · rw [not_or, Int.not_lt] at hkept
    obtain ⟨hfirst, hsecond⟩ := (Vec.isWithin_iff (asked.x < asked.y)).1 hasked
    have hcut := (h.cut hkept.1 hkept.2).bounds hfirst.1 hsecond.1
    exact (Vec.isWithin_iff (asked.x < asked.y)).2 ⟨⟨hcut.1.1, hcut.1.2.trans hfirst.2⟩,
      hcut.2.1, hcut.2.2.trans hsecond.2⟩

/-! ## §5. Resized types. -/

/-- What a type has when it has been resized, apart from its content. -/
theorem resized_eq (r : Registry σ) (name : Name) (t : ChipType) (size : Vec) :
    r.resized name t size =
      { { t with size }.canonical with content := (r.resized name t size).content } := by
  unfold resized
  dsimp only
  split <;> rfl

/-- A resized type is stored as it is. -/
theorem isCanonical_resized (r : Registry σ) (name : Name) (t : ChipType) (size : Vec) :
    (r.resized name t size).IsCanonical := by
  have hcontent : (r.resized name t size).content.size = { t with size }.canonical.size := by
    rcases r.resized_content name t size with h | h
    · rw [h]
      rfl
    · obtain ⟨wires, hframe, -⟩ := (r.resizedBoard name t size).rerouted_frame none
      rw [h, hframe]
      rfl
  rw [r.resized_eq name t size]
  exact { { t with size }.isCanonical_canonical with contentSize := hcontent }

/-- A size that a type may get is the size that it has after it. -/
theorem size_resized (h : r.IsConfigured) (name : Name) (t : ChipType) (size : Vec) :
    (r.resized name t (r.allowedSize name size)).size = r.allowedSize name size := by
  have hbase := h.bounds.1
  have hasked := size.isWithin_clampVec hbase.width.1 hbase.height.1
  rw [r.resized_eq name t]
  exact (((r.isAllowed_allowedSize h name size).isWithin hasked).trans hbase).clampVec_eq

variable [TypeStore σ]

/-- A custom type that is resized is defined once more. -/
theorem defines_setSize {name : Name} (hname : isStandard name = false) (size : Vec) :
    Defines r name (r.resized name (r.types.get name) (r.allowedSize name size))
      (r.resized name (r.types.get name) (r.allowedSize name size)).size (r.setSize name size) := by
  have hdefines : Defines r name _ _ (r.setSize name size) := defines_change hname _ _
  dsimp only at hdefines
  rw [ChipType.canonical_eq (r.isCanonical_resized name _ _)] at hdefines
  exact hdefines

/-- A custom type gets the largest size that is allowed. -/
theorem setSize_largest (hconfig : r.IsConfigured) {name : Name} (hname : isStandard name = false)
    (size : Vec) : ∃ t, Defines r name t t.size (r.setSize name size) ∧
      r.IsAllowed name (size.clampVec .one r.baseMaxSize) t.size := by
  refine ⟨_, r.defines_setSize hname size, ?_⟩
  rw [r.size_resized hconfig]
  exact r.isAllowed_allowedSize hconfig name size

/-- A registry in which the base type has three columns and four rows. -/
def smallRegistry : Registry MemoryStore where
  custom := .ofList [(⟨"base"⟩, { ChipType.skeleton with size := ⟨3, 4⟩ }.canonical)]
  base := ⟨"base"⟩
  baseMaxSize := largestSize
  route := ({} : Settings).route
  store := .empty

/-- It is not enough to cut the width of a type, so that its height is cut as well. -/
theorem setSize_smallRegistry : (smallRegistry.setSize ⟨"cell"⟩ ⟨5, 20⟩).1 = .ok ⟨1, 11⟩ ∧
    ∃ t, Defines smallRegistry ⟨"cell"⟩ t t.size (smallRegistry.setSize ⟨"cell"⟩ ⟨5, 20⟩) ∧
      smallRegistry.IsAllowed ⟨"cell"⟩ ⟨5, 20⟩ t.size :=
  ⟨by decide +kernel, setSize_largest ⟨{}, by decide +kernel, rfl, rfl⟩ (by decide +kernel) ⟨5, 20⟩⟩

end Registry

end LogicBoard
