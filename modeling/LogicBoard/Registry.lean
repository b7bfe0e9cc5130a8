/-
  LogicBoard.Registry
  ────────────────────────────────
  **THE CHIP TYPES OF A DESIGN.**

  A registry knows the standard types and the custom ones.  Asking for a type
  never fails: a name without a definition stands for the skeleton.  Standard
  types never change; every change of a custom type is written to the store
  at once, and a change whose writing fails is not made.
-/
import LogicBoard.Design.Library
import LogicBoard.Record.Source
import LogicBoard.Routing.Router
import LogicBoard.Store.Basic
import LogicBoard.Text.Quoted

namespace LogicBoard

universe u

/-- The chip types of a design and the store that keeps the custom ones. -/
structure Registry (σ : Type u) where
  custom : TypeTable
  /-- The type that all other custom types have to be smaller than. -/
  base : Name
  /-- The largest size of a custom type. -/
  baseMaxSize : Vec
  route : RouteSettings
  store : σ

namespace Registry

variable {σ : Type u}

/-! ## §1. Reading. -/

/-- The definitions of all types. -/
def types (r : Registry σ) : TypeLookup where
  get name := ((Library.standard.find? name).or (r.custom.find? name)).getD .skeleton
  isStandard name := Library.standard.contains name

/-- Is it one of the standard types? -/
def isStandard (name : Name) : Bool := Library.standard.contains name

/-- Is it a custom type with a definition? -/
def isCustom (r : Registry σ) (name : Name) : Bool := r.custom.contains name

/-- Is there a definition of the type? -/
def contains (r : Registry σ) (name : Name) : Bool := isStandard name || r.isCustom name

/-- The standard types. -/
def standardNames : List Name := Library.standard.keys

/-- The custom types other than the base type. -/
def customNames (r : Registry σ) : List Name := r.custom.keys.filter (· ≠ r.base)

/-- The standard types, then the custom types other than the base type. -/
def names (r : Registry σ) : List Name := standardNames ++ r.customNames

/-- The custom types as one document. -/
def documentText (r : Registry σ) : String := (Record.ofTypeTable r.custom).pretty

/-- The source whose root chip has the given type. -/
def source (r : Registry σ) (root : Name) : Source :=
  ⟨.ofPlace root root .one, r.custom⟩

/-- A summary for developers. -/
def summary (r : Registry σ) : String :=
  let shown (name : Name) : String := "TypeName(" ++ Text.quoted name.text ++ ")"
  "TypeRegistry \x7b standard: " ++ toString standardNames.length ++ ", custom: ["
    ++ ", ".intercalate (r.custom.keys.map shown) ++ "], base: " ++ shown r.base ++ ", .. \x7d"

/-! ## §2. Sizes. -/

/-- Takes rows or columns away until the area is below a limit, from the shorter side first; a
side of length one stays. -/
def fitBelow (limit : Int) (widthFirst : Bool) (size : Vec) : Vec :=
  if size.area < limit then size
  else if widthFirst then
    if _h : 1 < size.x then fitBelow limit widthFirst ⟨size.x - 1, size.y⟩
    else if _h : 1 < size.y then fitBelow limit widthFirst ⟨size.x, size.y - 1⟩
    else size
  else
    if _h : 1 < size.y then fitBelow limit widthFirst ⟨size.x, size.y - 1⟩
    else if _h : size.y = 1 ∧ 1 < size.x then fitBelow limit widthFirst ⟨size.x - 1, size.y⟩
    else size
termination_by size.x.toNat + size.y.toNat
decreasing_by all_goals simp_wf; omega

/-- The size that a type gets when one is asked for. -/
def allowedSize (r : Registry σ) (name : Name) (size : Vec) : Vec :=
  let size := size.clampVec .one r.baseMaxSize
  if name = r.base then size
  else fitBelow (r.types.get r.base).size.area (size.x < size.y) size

/-- The definitions of all types once a type has another definition. -/
def typesWith (r : Registry σ) (name : Name) (t : ChipType) : TypeLookup where
  get other := if other = name then t else r.types.get other
  isStandard := isStandard

/-- A definition with another size: its chips are moved onto the board, and all wires that were not
drawn by hand are routed again. -/
def resized (r : Registry σ) (name : Name) (t : ChipType) (size : Vec) : ChipType :=
  let t := { t with size }.canonical
  let types := r.typesWith name t
  let grid := t.content.gridSize r.route.scale
  let content := t.content.mapChips (·.clampTo grid types) (Chip.clampTo_id grid types)
  match Board.reroute ⟨name, content, types, r.route⟩ none with
  | .ok (_, content) => { t with content }
  | .error _ => { t with content }

/-! ## §3. Changes. -/

variable [TypeStore σ]

/-- The result of a change, and the registry after it. -/
abbrev Outcome (σ : Type u) (α : Type) := Except StoreError α × Registry σ

/-- Opens the registry of the types in a store.  Records under the name of a standard type are
ignored. -/
def load (settings : Settings) (store : σ) : Except StoreError (Registry σ) :=
  match TypeStore.loadAll store with
  | (.error e, _) => .error e
  | (.ok types, store) =>
    .ok {
      custom := .ofList ((types.filter fun e => !isStandard e.1).map fun e => (e.1, e.2.canonical))
      base := .ofText settings.editor.baseType
      baseMaxSize := settings.editor.baseMaxSize
      route := settings.route
      store }

/-- Defines a custom type. -/
def put (r : Registry σ) (name : Name) (t : ChipType) : Outcome σ Unit :=
  let t := t.canonical
  match TypeStore.save r.store name t with
  | (.error e, store) => (.error e, { r with store })
  | (.ok (), store) => (.ok (), { r with store, custom := r.custom.insert name t })

/-- Changes the definition of a type and answers something about the change; a standard type stays
as it is. -/
def change {α : Type} (r : Registry σ) (name : Name) (refusal : α)
    (f : ChipType → ChipType × α) : Outcome σ α :=
  if isStandard name then (.ok refusal, r)
  else
    let (t, a) := f (r.types.get name)
    let (result, r) := r.put name t
    (result.map fun _ => a, r)

/-- Defines a type unless it has a definition; `none` for a standard type. -/
def newType (r : Registry σ) (name : Name) : Outcome σ (Option Name) :=
  r.change name none fun t => (t, some name)

/-- Resizes a type and answers the size it got. -/
def setSize (r : Registry σ) (name : Name) (size : Vec) : Outcome σ Vec :=
  r.change name (r.types.get name).size fun t =>
    let t := r.resized name t (r.allowedSize name size)
    (t, t.size)

/-- Names a port and answers whether that was possible: the position has to exist, and no port of
that side may have the name already. -/
def setPort (r : Registry σ) (name : Name) (position : Nat) (port : String) (output : Bool) :
    Outcome σ Bool :=
  r.change name false fun t =>
    let port := ChipType.spelled port
    let ports := t.ports output
    if position < ports.length && (port.isEmpty || !ports.contains port) then
      let ports := ports.set position port
      (if output then { t with outputs := ports } else { t with inputs := ports }, true)
    else (t, false)

/-- Adds a constant slot. -/
def addConstant (r : Registry σ) (name : Name) (constant : String) : Outcome σ Unit :=
  r.change name () fun t => ({ t with constants := t.constants ++ [constant] }, ())

/-- Removes a constant slot. -/
def removeConstant (r : Registry σ) (name : Name) (constant : String) : Outcome σ Unit :=
  let constant := ChipType.spelled constant
  r.change name () fun t => ({ t with constants := t.constants.filter (· ≠ constant) }, ())

/-- Replaces the content of a type. -/
def setContent (r : Registry σ) (name : Name) (content : Content) : Outcome σ Unit :=
  r.change name () fun t => ({ t with content }, ())

/-- Forgets a custom type and answers whether there was one. -/
def removeType (r : Registry σ) (name : Name) : Outcome σ Bool :=
  if r.isCustom name then
    let (result, store) := TypeStore.remove r.store name
    (result.map fun _ => true, { r with store, custom := r.custom.erase name })
  else (.ok false, r)

/-- Forgets types one after the other. -/
def removeTypes (r : Registry σ) : List Name → Outcome σ Unit
  | [] => (.ok (), r)
  | name :: rest =>
    match r.removeType name with
    | (.error e, r) => (.error e, r)
    | (.ok _, r) => r.removeTypes rest

/-- Forgets all custom types. -/
def reset (r : Registry σ) : Outcome σ Unit := r.removeTypes r.custom.keys

/-- Takes over one type as it is in the store now. -/
def syncType (r : Registry σ) (name : Name) : Outcome σ Unit :=
  if isStandard name then (.ok (), r)
  else
    match TypeStore.load r.store name with
    | (.error e, store) => (.error e, { r with store })
    | (.ok (some t), store) => (.ok (), { r with store, custom := r.custom.insert name t.canonical })
    | (.ok none, store) => (.ok (), { r with store, custom := r.custom.erase name })

/-- Takes over types one after the other. -/
def syncTypes (r : Registry σ) : List Name → Outcome σ Unit
  | [] => (.ok (), r)
  | name :: rest =>
    match r.syncType name with
    | (.error e, r) => (.error e, r)
    | (.ok (), r) => r.syncTypes rest

/-- Takes over what others have changed in the store and answers the names. -/
def sync (r : Registry σ) : Outcome σ (List Name) :=
  match TypeStore.changes r.store with
  | (.error e, store) => (.error e, { r with store })
  | (.ok names, store) =>
    let (result, r) := { r with store }.syncTypes names
    (result.map fun _ => names, r)

end Registry

end LogicBoard
