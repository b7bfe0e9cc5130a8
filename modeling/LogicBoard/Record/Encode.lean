/-
  LogicBoard.Record.Encode
  ────────────────────────────────
  **WRITING RECORDS.**

  The record of a value has every field, in a fixed order.
-/
import LogicBoard.Design.Chip

namespace LogicBoard.Record

/-! ## §1. Simple values. -/

/-- The record of a point or an extent. -/
def ofVec (v : Vec) : Json :=
  .object [("x", .int v.x), ("y", .int v.y)]

/-- The document of a constant. -/
def ofConstant : Constant → Json
  | .number n => .number n
  | .text s => .string s

/-- The document of constants by name. -/
def ofConstants (t : Table String Constant) : Json :=
  .object (t.entries.map fun e => (e.1, ofConstant e.2))

/-- The document of a list of texts. -/
def ofTexts (l : List String) : Json :=
  .array (l.map .string)

/-! ## §2. The design. -/

/-- The record of a pin. -/
def ofPin (p : Pin) : Json :=
  .object [("chip", .string p.chip.text), ("output", .bool p.output), ("name", .string p.port)]

/-- The record of a wire. -/
def ofWire (w : Wire) : Json :=
  .object [
    ("layer", .int w.layer), ("path", .array (w.path.map ofVec)),
    ("source", ofPin w.source), ("target", ofPin w.target),
    ("customPath", .bool w.drawn), ("validPath", .bool w.valid)]

/-- The record of a chip. -/
def ofChip (c : Chip) : Json :=
  .object [
    ("id", .string c.id.text), ("name", .string c.label), ("type", .string c.type.text),
    ("pos", ofVec c.pos), ("constants", ofConstants c.constants),
    ("rotation", .int c.rotation.turns)]

/-- The record of a content. -/
def ofContent (c : Content) : Json :=
  .object [
    ("chips", .array (c.chips.values.map ofChip)), ("connections", .array (c.wires.map ofWire))]

/-- The record of a chip type. -/
def ofChipType (t : ChipType) : Json :=
  .object [
    ("size", ofVec t.size), ("inputs", ofTexts t.inputs), ("outputs", ofTexts t.outputs),
    ("type", .string t.kind), ("constants", ofTexts t.constants),
    ("content", ofContent t.content), ("description", .string t.description),
    ("code", t.code.elim .null .string)]

/-- The document of chip types by name. -/
def ofTypeTable (t : TypeTable) : Json :=
  .object (t.entries.map fun e => (e.1.text, ofChipType e.2))

end LogicBoard.Record
