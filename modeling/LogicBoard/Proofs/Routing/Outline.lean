/-
  LogicBoard.Proofs.Routing.Outline
  ────────────────────────────────
  **WHAT A BOARD READS OF THE TYPES.**

  A board asks how large the types of its chips are and what ports they have,
  and of the type around them it asks for the ports.  So wires take the same
  ways for all definitions with one outline, whatever is inside these; a type
  can be routed before it is known what its content will be.

  Main statements:
    • `rerouted_outlined` — routing again needs outlines only,
    • `content_rerouted_congr` — boards with one outline are routed alike.
-/
import LogicBoard.Proofs.Routing.Reroute

namespace LogicBoard

/-! ## §1. Outlines. -/

/-- The type as it looks from outside: a size and ports. -/
def ChipType.outline (t : ChipType) : ChipType :=
  { skeleton with size := t.size, inputs := t.inputs, outputs := t.outputs }

/-- Looks up the outlines of types. -/
def TypeLookup.outlined (types : TypeLookup) : TypeLookup where
  get name := (types.get name).outline
  isStandard := types.isStandard

namespace Board

/-- The board that knows no more than the outlines of types. -/
def outlined (b : Board) : Board := { b with types := b.types.outlined }

variable (b : Board) (chip : Option Name)

/-! ## §2. Routing. -/

theorem place?_outlined (pin : Pin) : b.outlined.place? pin = b.place? pin := rfl

theorem costs_outlined (other : Option Wire) : b.outlined.costs other = b.costs other := rfl

theorem routeOf_outlined (w : Wire) : b.outlined.routeOf w = b.routeOf w := by
  unfold routeOf
  rw [place?_outlined, place?_outlined, costs_outlined]
  rfl

theorem schedule_outlined : b.outlined.schedule chip = b.schedule chip := by
  unfold schedule span?
  simp only [place?_outlined]
  rfl

theorem turned_outlined (i : Nat) : b.outlined.turned i = (b.turned i).outlined := by
  unfold turned
  simp only [routeOf_outlined]
  rfl

/-- Routing again needs outlines only. -/
theorem rerouted_outlined : b.outlined.rerouted chip = (b.rerouted chip).outlined := by
  unfold rerouted
  rw [schedule_outlined]
  show (b.schedule chip).foldl turned (b.unrouted chip).outlined = _
  exact List.foldl_hom outlined fun b i => b.turned_outlined i

variable {b}

/-- Boards with one outline are routed alike. -/
theorem content_rerouted_congr {b' : Board} (h : b.outlined = b'.outlined) :
    (b.rerouted chip).content = (b'.rerouted chip).content := by
  calc (b.rerouted chip).content
    _ = (b.outlined.rerouted chip).content := by rw [rerouted_outlined]; rfl
    _ = (b'.outlined.rerouted chip).content := by rw [h]
    _ = (b'.rerouted chip).content := by rw [rerouted_outlined]; rfl

end Board

end LogicBoard
