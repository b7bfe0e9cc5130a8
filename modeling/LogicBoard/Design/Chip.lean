/-
  LogicBoard.Design.Chip
  ────────────────────────────────
  **CHIPS, CHIP TYPES AND THEIR CONTENT.**

  A chip is one occurrence of a chip type on a board.  Chip types come in
  two kinds: those with inline code, and composite ones, whose instances are
  built from a content of chips and wires.  A chip keeps the name of its
  type only; size, ports and constant slots are looked up.

  A definition is *canonical* when its size is admissible, its port lists
  have one entry per column, and ports and constants are spelled the one
  way they are spelled everywhere; `ChipType.canonical` makes it so.
-/
import LogicBoard.Design.Constant
import LogicBoard.Design.Wire
import LogicBoard.Geometry.Rotation

namespace LogicBoard

/-! ## §1. Chips. -/

/-- One occurrence of a chip type. -/
structure Chip where
  /-- The chip's own name, used once per content. -/
  id : Name
  /-- What to show instead of the name of the type; empty for nothing. -/
  label : String
  type : Name
  /-- The cell of the top left corner. -/
  pos : Vec
  constants : Table String Constant
  rotation : Rotation
deriving DecidableEq

/-- An unturned chip without constants. -/
def Chip.ofPlace (id type : Name) (pos : Vec) : Chip :=
  ⟨id, "", type, pos, .empty, .r0⟩

/-! ## §2. Contents. -/

/-- The chips inside a chip type and the wires between them.  The chips are kept by their names: any
list of chips and any list of wires make a content (`ofChips`), and whatever puts a chip in puts it
under its own name. -/
structure Content where
  /-- The size of the chip type. -/
  size : Vec
  chips : Table Name Chip
  /-- The wires, in the order they were made. -/
  wires : List Wire
  /-- Every chip stands under its own name. -/
  keyed : ∀ e ∈ chips.entries, e.2.id = e.1
deriving DecidableEq

namespace Content

/-- A content without chips and wires. -/
def ofSize (size : Vec) : Content := ⟨size, .empty, [], by simp [Table.empty]⟩

instance : Inhabited Content := ⟨ofSize .one⟩

/-- The extent of the board in cells. -/
def gridSize (c : Content) (scale : Int) : Vec := c.size.scale scale

/-- Are there neither chips nor wires? -/
def isEmpty (c : Content) : Bool := c.chips.isEmpty && c.wires.isEmpty

/-- The chip of a name. -/
def chip? (c : Content) (id : Name) : Option Chip := c.chips.find? id

/-- Puts a chip under its name, in place of the one that stands there. -/
def put (c : Content) (chip : Chip) : Content :=
  { c with
    chips := c.chips.insert chip.id chip
    keyed := fun e he => (Table.mem_putIn he).elim (fun h => h ▸ rfl) (c.keyed e) }

/-- Takes a chip out. -/
def remove (c : Content) (id : Name) : Content :=
  { c with
    chips := c.chips.erase id
    keyed := fun e he => c.keyed e (List.mem_filter.1 he).1 }

/-- Changes every chip without giving it another name. -/
def mapChips (c : Content) (f : Chip → Chip) (hf : ∀ chip, (f chip).id = chip.id) : Content :=
  { c with
    chips := c.chips.mapValues f
    keyed := fun e he => by
      obtain ⟨d, hd, rfl⟩ := List.mem_map.1 he
      exact (hf d.2).trans (c.keyed d hd) }

/-- A content of chips; of several with one name the last one counts. -/
def ofChips (size : Vec) (chips : List Chip) (wires : List Wire) : Content :=
  { chips.foldl put (ofSize size) with wires }

/-- The wires that end on a chip. -/
def wiresOfChip (c : Content) (id : Name) : List Wire := c.wires.filter (·.usesChip id)

/-- The wires that end on a pin. -/
def wiresOfPin (c : Content) (pin : Pin) : List Wire := c.wires.filter (·.usesPin pin)

/-- Does a wire end on the chip? -/
def isWired (c : Content) (id : Name) : Bool := c.wires.any (·.usesChip id)

/-- The chips on which some wire ends, in the order of their names. -/
def wiredChips (c : Content) : List Chip := c.chips.values.filter fun chip => c.isWired chip.id

/-- The wires that drive an input of the chip. -/
def wiresInto (c : Content) (id : Name) : List Wire :=
  c.wires.filter fun w => !w.target.output && w.target.chip = id

/-- The wires that an output of the chip drives. -/
def wiresFrom (c : Content) (id : Name) : List Wire :=
  c.wires.filter fun w => w.source.output && w.source.chip = id

end Content

/-! ## §3. Chip types. -/

/-- What the instances of a chip type share. -/
structure ChipType where
  size : Vec
  /-- The input ports by position; an empty name marks an unused position. -/
  inputs : List String
  /-- The output ports by position. -/
  outputs : List String
  /-- The names of the constant slots. -/
  constants : List String
  content : Content
  /-- The inline code of a standard type, a template. -/
  code : Option String
  /-- The category, `custom` for the types that users define. -/
  kind : String
  description : String
deriving DecidableEq

namespace ChipType

/-- The category of types that users define. -/
def customKind : String := "custom"

/-- The definition that stands in for every type that is not known. -/
def skeleton : ChipType :=
  ⟨.one, ["A", "B"], ["R", ""], [], .ofSize .one, none, customKind, ""⟩

instance : Inhabited ChipType := ⟨skeleton⟩

/-- The inline code, if there is any. -/
def inlineCode? (t : ChipType) : Option String :=
  t.code.filter (!·.isEmpty)

/-- Are instances built from the content? -/
def isComposite (t : ChipType) : Bool := t.inlineCode?.isNone

/-- The ports of one side. -/
def ports (t : ChipType) (output : Bool) : List String :=
  if output then t.outputs else t.inputs

/-- The position of a port on one side. -/
def position? (t : ChipType) (port : String) (output : Bool) : Option Nat :=
  if port.isEmpty then none else (t.ports output).idxOf? port

/-- The ports of one side that have a name, by position. -/
def namedPorts (t : ChipType) (output : Bool) : List String :=
  (t.ports output).filter (!·.isEmpty)

/-! ## §4. Canonical definitions. -/

/-- The one spelling of a port or a constant. -/
def spelled (s : String) : String := Text.upper (Text.trim s)

/-- Brings a port list to a length: surplus ports go, missing ones are unused. -/
def fitPorts (n : Nat) (ports : List String) : List String :=
  (ports.take n ++ List.replicate (n - ports.length) "").map spelled

/-- Adds a constant slot unless its name is empty or taken. -/
def addSlot (slots : List String) (name : String) : List String :=
  if name.isEmpty || slots.contains name then slots else slots ++ [name]

/-- The canonical form of a definition. -/
def canonical (t : ChipType) : ChipType :=
  let size := t.size.clampVec .one largestSize
  let columns := size.x.toNat + 1
  { t with
    size
    inputs := fitPorts columns t.inputs
    outputs := fitPorts columns t.outputs
    constants := (t.constants.map spelled).foldl addSlot []
    content := { t.content with size } }

end ChipType

/-! ## §5. Looking definitions up. -/

/-- Read access to chip types. -/
structure TypeLookup where
  /-- The definition of a type, the skeleton if it is not known. -/
  get : Name → ChipType
  /-- Is the type one of the standard ones? -/
  isStandard : Name → Bool

/-- Chip types by name. -/
abbrev TypeTable := Table Name ChipType

/-- Looks types up in a table, in which the standard types are those with inline code. -/
def TypeTable.lookup (t : TypeTable) : TypeLookup where
  get name := (t.find? name).getD .skeleton
  isStandard name := (t.find? name).any (!·.isComposite)

namespace Chip

/-! ## §6. Chips with their types. -/

/-- The name to show: the label, else the name of the type, in upper case if it is standard. -/
def displayName (c : Chip) (types : TypeLookup) : String :=
  if !c.label.isEmpty then c.label
  else if types.isStandard c.type then Text.upper c.type.text
  else c.type.text

/-- The size of an unturned instance. -/
def size (c : Chip) (types : TypeLookup) : Vec := (types.get c.type).size

/-- The extent that the chip covers. -/
def footprint (c : Chip) (types : TypeLookup) : Vec := c.rotation.footprint (c.size types)

universe u

/-- The rectangle that the chip covers. -/
def rect {K : Type u} [Coordinate K] (c : Chip) (types : TypeLookup) : Rect K :=
  .ofPlace c.pos (c.footprint types)

/-- The area that the chip shares with a rectangle when both are padded. -/
def overlapWith {K : Type u} [Coordinate K] [Add K] [Sub K] [Mul K] [Min K] [Max K] (c : Chip)
    (r : Rect K) (pad : K) (types : TypeLookup) : K :=
  ((c.rect types).pad pad).overlapArea (r.pad pad)

/-- The area that two chips share when both are padded by half a cell. -/
def overlap {K : Type u} [Coordinate K] [Add K] [Sub K] [Mul K] [Min K] [Max K] [OfScientific K]
    (c d : Chip) (types : TypeLookup) : K :=
  c.overlapWith (d.rect types) 0.5 types

/-- Turns the chip. -/
def rotate (c : Chip) (by' : Int) : Chip := { c with rotation := c.rotation.rotate by' }

/-- Moves the chip so that all of it lies on a board of the given extent. -/
def clampTo (c : Chip) (grid : Vec) (types : TypeLookup) : Chip :=
  { c with pos := c.pos.clampVec .zero (grid - c.footprint types) }

theorem clampTo_id (grid : Vec) (types : TypeLookup) (c : Chip) :
    (c.clampTo grid types).id = c.id := rfl

/-- Moves the chip to a cell, or as near as the board allows. -/
def moveTo (c : Chip) (pos grid : Vec) (types : TypeLookup) : Chip :=
  { c with pos }.clampTo grid types

/-- Fills a constant slot; `none` if the type has no such slot. -/
def setConstant? (c : Chip) (key : String) (value : Constant) (types : TypeLookup) : Option Chip :=
  let key := Text.upper key
  if (types.get c.type).constants.contains key then
    some { c with constants := c.constants.insert key value }
  else none

/-- The value of every slot that the type declares. -/
def resolvedConstants (c : Chip) (types : TypeLookup) : Table String Constant :=
  .ofList ((types.get c.type).constants.map fun key =>
    (key, (c.constants.find? key).getD .unset))

/-- The same chip under another name, with a value for exactly the slots of its type. -/
def copyAs (c : Chip) (id : Name) (types : TypeLookup) : Chip :=
  { c with id, constants := c.resolvedConstants types }

end Chip

end LogicBoard
