/-
  LogicBoard.Routing.Heap
  ────────────────────────────────
  **A PRIORITY QUEUE IN AN ARRAY.**

  The item at index `i` is never below the items at `2 * i + 1` and
  `2 * i + 2`, so the greatest item is in front.  Items that compare equal
  leave in the order that the moves below happen to give them; the search for
  paths depends on this order where several paths are equally good, so the
  moves are part of what this module promises.
-/
namespace LogicBoard

universe u

namespace Heap

variable {α : Type u} (le : α → α → Bool)

/-- Moves an item towards the front while it is above the item over it. -/
def siftUp (a : Array α) (i : Nat) (h : i < a.size) : Array α :=
  if hi : i = 0 then a
  else
    have hp : (i - 1) / 2 < a.size := by omega
    if le a[i] a[(i - 1) / 2] then a
    else siftUp (a.swap i ((i - 1) / 2)) ((i - 1) / 2) (by simpa using hp)
termination_by i

/-- Adds an item. -/
def push (a : Array α) (x : α) : Array α :=
  siftUp le (a.push x) a.size (by simp)

/-- Moves an item all the way to the back, past the greater item below it each time, and from
there to its place. -/
def sink (a : Array α) (i : Nat) (h : i < a.size) : Array α :=
  if hr : 2 * i + 2 < a.size then
    if le a[2 * i + 1] a[2 * i + 2] then
      sink (a.swap i (2 * i + 2)) (2 * i + 2) (by simpa using hr)
    else
      sink (a.swap i (2 * i + 1)) (2 * i + 1) (by simp; omega)
  else if hl : 2 * i + 1 < a.size then
    siftUp le (a.swap i (2 * i + 1)) (2 * i + 1) (by simpa using hl)
  else siftUp le a i h
termination_by a.size - i
decreasing_by all_goals simp; omega

/-- Takes the greatest item out. -/
def pop? (a : Array α) : Option (α × Array α) :=
  if h : 0 < a.size then
    let last := a[a.size - 1]
    let rest := a.pop
    if hr : 0 < rest.size then
      some (rest[0], sink le (rest.set 0 last hr) 0 (by simpa using hr))
    else some (last, rest)
  else none

end Heap

end LogicBoard
