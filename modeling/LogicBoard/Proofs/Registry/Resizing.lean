/-
  LogicBoard.Proofs.Registry.Resizing
  ────────────────────────────────
  **RESIZING IN A REGISTRY AND IN AN EDITOR.**

  A registry resizes a type before the type has its new definition: chips are
  brought onto the board and wires are routed with types among which the
  resized one is still half done.  An editor resizes a content with types
  that are all there.  Both come to the same content, because what is not
  done yet is not part of the outline of the type.

  Main statements:
    • `outlined_typesWith` — the type has its outline before its content,
    • `content_resized_eq` — what the registry makes of a content,
    • `setSize_inEditor` — resizing in an editor comes to the same.
-/
import LogicBoard.Proofs.Edit.Operation
import LogicBoard.Proofs.Registry.Export
import LogicBoard.Proofs.Registry.Shrinking
import LogicBoard.Proofs.Routing.Outline

namespace LogicBoard

/-- An editor needs outlines only to resize a content. -/
theorem Editor.board_resized_outlined (e : Editor) (types : TypeLookup) (size : Vec) :
    ((e.resized types size).board types).outlined
      = (e.resized types.outlined size).board types.outlined := rfl

namespace Registry

universe u

variable {σ : Type u} (r : Registry σ) (name : Name)

/-! ## §1. Types with another definition. -/

/-- After a definition has been put into a registry, its types are those with this definition. -/
theorem types_insert (hname : isStandard name = false) (t : ChipType) (store : σ) :
    ({ r with store, custom := r.custom.insert name t } : Registry σ).types
      = r.typesWith name t := by
  have hstandard : Library.standard.find? name = none := by
    simpa [isStandard, Table.contains] using hname
  -- The standard types come first, but the name is not one of theirs.
  have hget : ∀ other,
      ((Library.standard.find? other).or ((r.custom.insert name t).find? other)).getD .skeleton
        = if other = name then t else r.types.get other := by
    intro other
    rw [Table.find?_insert]
    by_cases hother : other = name
    · rw [hother, hstandard, if_pos rfl, if_pos rfl]
      rfl
    · rw [if_neg (Ne.symm hother), if_neg hother]
      rfl
  unfold types typesWith
  simp only [hget]
  rfl

/-- Definitions with one outline look the same from outside. -/
theorem outlined_typesWith {t t' : ChipType} (h : t.outline = t'.outline) :
    (r.typesWith name t).outlined = (r.typesWith name t').outlined := by
  have hget : ∀ other, (if other = name then t else r.types.get other : ChipType).outline
      = (if other = name then t' else r.types.get other : ChipType).outline := by
    intro other
    split
    · exact h
    · rfl
  unfold TypeLookup.outlined typesWith
  simp only [hget]

/-! ## §2. Contents. -/

/-- A registry resizes a content as an editor does that is handed the types as they are then. -/
theorem resizedBoard_eq (t : ChipType) (size : Vec) :
    r.resizedBoard name t size =
      ((⟨name, t.content, r.route⟩ : Editor).resized (r.resizedBoard name t size).types
        { t with size }.canonical.size).board (r.resizedBoard name t size).types := rfl

variable {r}

theorem content_resized_eq (h : r.IsConfigured) (t : ChipType) (size : Vec) :
    (r.resized name t size).content = ((r.resizedBoard name t size).rerouted none).content := by
  have hedge : 0 ≤ (r.resizedBoard name t size).extent.y := by
    have hheight := { t with size }.isCanonical_canonical.height.1
    have hscale := h.bounds.2
    exact Int.mul_nonneg (Int.le_trans (by decide) hheight) (Int.le_trans (by decide) hscale)
  have hroute := Board.reroute_eq hedge none
  unfold resizedBoard at hroute ⊢
  unfold resized
  dsimp only at hroute ⊢
  rw [hroute]

/-- While a type is being resized it has the outline that it has after it. -/
theorem outline_resized (t : ChipType) (size : Vec) :
    (r.resized name t size).outline = { t with size }.canonical.outline := by
  rw [r.resized_eq name t size]
  rfl

/-- The editor comes to the content that the registry comes to. -/
theorem setSize_resized (h : r.IsConfigured) (t : ChipType) (size : Vec) :
    ∃ e, (⟨name, t.content, r.route⟩ : Editor).setSize
        (r.typesWith name (r.resized name t size)) (r.resized name t size).size = .ok e ∧
      e.content = (r.resized name t size).content := by
  have hheight := (r.isCanonical_resized name t size).height.1
  have hscale := h.bounds.2
  refine ⟨_, Editor.setSize_eq _ _ (by omega) (show 0 ≤ r.route.scale by omega), ?_⟩
  have houtline := outline_resized (r := r) name t size
  have hsize : (r.resized name t size).size = { t with size }.canonical.size := by
    rw [r.resized_eq name t size]
  rw [content_resized_eq name h]
  refine Board.content_rerouted_congr none ?_
  -- The two lookups differ in the content of the resized type only.
  rw [resizedBoard_eq, Editor.board_resized_outlined, Editor.board_resized_outlined,
    r.outlined_typesWith name houtline, hsize]
  rfl

/-! ## §3. Whole definitions. -/

/-- All types are canonical, whether they are known or not. -/
theorem AllCanonical.get (h : AllCanonical r.custom) : (r.types.get name).IsCanonical :=
  forall_get (fun e _ => e.2.isCanonical_canonical) h isCanonical_skeleton name

/-- The slots of a canonical type stay as they are when it is resized. -/
theorem constants_resized {t : ChipType} (h : t.IsCanonical) (size : Vec) :
    (r.resized name t size).constants = t.constants := by
  -- Which slots there are does not depend on the size.
  have hslots : t.canonical.constants = t.constants := by
    rw [ChipType.canonical_eq h]
  rw [r.resized_eq name t size]
  exact hslots

/-- The type has another size and the ports and the content for it, and an editor that is handed
the types after the call comes to this content; nothing else has changed. -/
structure IsResized (r : Registry σ) (name : Name) (t : ChipType) (after : Registry σ) : Prop where
  held : after.custom.find? name = some t
  content : ∃ e, (⟨name, (r.types.get name).content, r.route⟩ : Editor).setSize after.types t.size
    = .ok e ∧ e.content = t.content
  constants : t.constants = (r.types.get name).constants
  code : t.code = (r.types.get name).code
  kind : t.kind = (r.types.get name).kind
  description : t.description = (r.types.get name).description
  others : ∀ other, other ≠ name → after.custom.find? other = r.custom.find? other

theorem isResized_resized (hr : AllCanonical r.custom) (hconfig : r.IsConfigured)
    (hname : isStandard name = false) (size : Vec) (store : σ) :
    r.IsResized name (r.resized name (r.types.get name) size) { r with
      store, custom := r.custom.insert name (r.resized name (r.types.get name) size) } := by
  have hframe := r.resized_eq name (r.types.get name) size
  constructor
  case held => exact (Table.find?_insert _ _ _ _).trans (if_pos rfl)
  case content =>
    rw [r.types_insert name hname]
    exact setSize_resized name hconfig _ _
  case constants => exact constants_resized name (hr.get name) size
  case code => rw [hframe]; rfl
  case kind => rw [hframe]; rfl
  case description => rw [hframe]; rfl
  case others =>
    intro other hother
    exact (Table.find?_insert _ _ _ _).trans (if_neg (Ne.symm hother))

variable [TypeStore σ]

/-- A registry and an editor resize a content alike. -/
theorem setSize_inEditor (hr : r.Reachable) (hconfig : r.IsConfigured)
    (hname : isStandard name = false) (size : Vec) :
    ∃ t, Defines r name t t.size (r.setSize name size) ∧
      ∀ s after, r.setSize name size = (.ok s, after) → s = t.size ∧ r.IsResized name t after := by
  have hdefines := r.defines_setSize hname size
  refine ⟨_, hdefines, fun s after hok => ?_⟩
  -- The call was answered with a size, so the store has taken the definition.
  cases hsave : TypeStore.save r.store name
      (r.resized name (r.types.get name) (r.allowedSize name size)) with
  | mk result store =>
    cases result with
    | error e =>
      rw [hdefines.failed e store hsave] at hok
      exact absurd (congrArg Prod.fst hok) (by simp)
    | ok _ =>
      rw [hdefines.saved store hsave] at hok
      obtain ⟨hs, rfl⟩ := Prod.mk.inj hok
      exact ⟨(Except.ok.inj hs).symm,
        isResized_resized name hr.allCanonical hconfig hname _ store⟩

/-- A registry in which the base type has room for others. -/
def roomyRegistry : Registry MemoryStore :=
  (gateRegistry.apply (.setSize ⟨"base"⟩ ⟨4, 4⟩)).2

theorem reachable_roomyRegistry : roomyRegistry.Reachable := .applied reachable_gateRegistry _

/-- The board of a type with a chip far outside of it grows, and the chip is brought onto it. -/
theorem setSize_roomyRegistry : ∃ t after,
    roomyRegistry.setSize ⟨"cell"⟩ ⟨2, 3⟩ = (.ok ⟨2, 3⟩, after) ∧
      roomyRegistry.IsResized ⟨"cell"⟩ t after := by
  have hconfig : roomyRegistry.IsConfigured := ⟨{}, by decide +kernel, rfl, rfl⟩
  have hname : isStandard ⟨"cell"⟩ = false := by decide +kernel
  have hallowed : roomyRegistry.allowedSize ⟨"cell"⟩ ⟨2, 3⟩ = ⟨2, 3⟩ := by decide +kernel
  have hdone := (roomyRegistry.defines_setSize hname ⟨2, 3⟩).saved _ rfl
  rw [(size_resized hconfig _ _ _).trans hallowed] at hdone
  obtain ⟨t, -, hall⟩ :=
    setSize_inEditor ⟨"cell"⟩ reachable_roomyRegistry hconfig hname ⟨2, 3⟩
  exact ⟨t, _, hdone, (hall _ _ hdone).2⟩

end Registry

end LogicBoard
