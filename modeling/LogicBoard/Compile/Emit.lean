/-
  LogicBoard.Compile.Emit
  ────────────────────────────────
  **THE CLASS OF A COMPOSITE TYPE.**

  Every wire becomes a statement that copies a value.  The wires that leave
  the inputs of the type come first; every other wire follows the statements
  of the chip that drives it.  A standard chip contributes its inline code, a
  composite one a call of the object made for it.
-/
import LogicBoard.Compile.Dependencies
import LogicBoard.Compile.Identifier
import LogicBoard.Compile.Order
import LogicBoard.Compile.Templates
import LogicBoard.Text.Blank

namespace LogicBoard

/-- What a type is compiled to, before it is written down. -/
structure EmittedType where
  context : ClassContext
  /-- The composite types of its wired chips, in rising order. -/
  needed : List Name
deriving DecidableEq

namespace Emit

/-- The type whose class is made, with the types that are known. -/
structure Job where
  owner : Name
  type : ChipType
  types : TypeTable

/-! ## §1. Wires. -/

/-- Is the pin on the boundary of the type or on a chip that exists? -/
def hasEnd (j : Job) (p : Pin) : Bool :=
  p.chip = j.owner || j.type.content.chips.contains p.chip

/-- Do both ends of the wire exist? -/
def hasEnds (j : Job) (w : Wire) : Bool := hasEnd j w.source && hasEnd j w.target

/-- The statements of the wires that a chip drives. -/
def wiresFrom (j : Job) (id : Name) : List String :=
  ((j.type.content.wiresFrom id).filter (hasEnds j)).map Identifier.wireStatement

/-- The statements of the wires that leave the inputs of the type. -/
def inputWires (j : Job) : List String :=
  (j.type.content.wires.filter fun w =>
    !w.source.output && w.source.chip = j.owner && hasEnds j w).map Identifier.wireStatement

/-- The block of the wires that leave the inputs, if there are any. -/
def preamble (j : Job) : List CodeBlock :=
  let lines := inputWires j
  if lines.isEmpty then []
  else [⟨j.owner.text, j.owner.text, "Setting Input Vars", lines, false⟩]

/-! ## §2. Declarations. -/

/-- The variables of the ports of a chip, the inputs first. -/
def portVariables (chip : Name) (t : ChipType) : List String :=
  (t.namedPorts false).map (Identifier.input chip.text)
    ++ (t.namedPorts true).map (Identifier.output chip.text)

/-- Drops the variables that are taken or that came before. -/
def undeclared (taken : List String) : List String → List String
  | [] => []
  | v :: rest =>
    if taken.contains v then undeclared taken rest else v :: undeclared (v :: taken) rest

/-! ## §3. Chips. -/

/-- What a chip contributes to the class. -/
structure Piece where
  bindings : List ConstantBinding
  object : Option ChipObject
  /-- The type of the chip, if it is composite. -/
  needed : Option Name
  block : CodeBlock

/-- The constants of a chip with their variables. -/
def constantsOf (j : Job) (c : Chip) : List (String × String × Constant) :=
  (c.resolvedConstants j.types.lookup).entries.map fun e =>
    (Identifier.constant c.id.text e.1, e.1, e.2)

/-- The bindings of the constants of a chip. -/
def bindingsOf (j : Job) (c : Chip) : List ConstantBinding :=
  (constantsOf j c).map fun e => ⟨e.1, e.2.2.literal⟩

/-- The values by which inline code knows the chip it is for. -/
def codeVariables (j : Job) (c : Chip) (t : ChipType) : List (String × String) :=
  let id := c.id.text
  ("chipName", j.owner.text)
    :: (t.namedPorts false).map (fun p => ("input_" ++ p, Identifier.input id p))
    ++ (t.namedPorts true).map (fun p => ("output_" ++ p, Identifier.output id p))
    ++ (constantsOf j c).flatMap fun e =>
      [("constant_" ++ e.2.1, e.1), ("raw_constant_" ++ e.2.1, e.2.2.display)]

/-- The lines of a text that are not blank, without blanks at their ends. -/
def codeLines (code : String) : List String :=
  ((Text.lines code).map Text.trimEnd).filter fun line => !(Text.trim line).isEmpty

/-- A chip with inline code. -/
def standard [Template.Engine] (j : Job) (c : Chip) (t : ChipType) (code : String) :
    Except CompileError Piece := do
  let code ← Templates.writeCode c.type.text code (codeVariables j c t)
  return {
    bindings := bindingsOf j c
    object := none
    needed := none
    block := ⟨c.type.text, c.id.text, "Chip Code", codeLines code ++ wiresFrom j c.id, true⟩ }

/-- The statements that call the object of a chip. -/
def callLines (c : Chip) (t : ChipType) : List String :=
  let id := c.id.text
  let args := ", ".intercalate ((t.namedPorts false).map (Identifier.input id))
  let call := "this." ++ Identifier.object c.id ++ ".run(" ++ args ++ ");"
  let outs := (t.namedPorts true).map (Identifier.output id)
  if outs.isEmpty then [call]
  else
    ("const [" ++ ", ".intercalate (outs.map ("_" ++ ·)) ++ "] = " ++ call)
      :: outs.map fun out => out ++ " = _" ++ out ++ ";"

/-- A composite chip. -/
def composite (j : Job) (c : Chip) (t : ChipType) : Piece where
  bindings := bindingsOf j c
  object := some {
    id := c.id.text
    member := Identifier.object c.id
    className := Identifier.className c.type
    type := c.type.text
    constants := (constantsOf j c).map (·.1) }
  needed := some c.type
  block := ⟨c.type.text, c.id.text, "Chip Code", callLines c t ++ wiresFrom j c.id, false⟩

/-- A chip of the plan. -/
def plannedChip (j : Job) (id : Name) : Except CompileError Chip :=
  match j.type.content.chip? id with
  | none => .error (.lostChip id j.owner)
  | some c => .ok c

/-- What a chip contributes. -/
def piece [Template.Engine] (j : Job) (c : Chip) : Except CompileError Piece :=
  match j.types.find? c.type with
  | none => .error (.unknownType c.type j.owner c.id)
  | some t =>
    match t.inlineCode? with
    | some code => standard j c t code
    | none => .ok (composite j c t)

/-! ## §4. Classes. -/

/-- Texts without repetitions, in rising order. -/
def sortedTexts (texts : List String) : List String :=
  (Table.ofList (texts.map fun s => (s, ()))).keys

/-- The variables of the pins of chips. -/
def chipPins (j : Job) (chips : List Chip) : List String :=
  chips.flatMap fun c => portVariables c.id (j.types.lookup.get c.type)

/-- Puts the class of a type together. -/
def assemble (j : Job) (debug : Bool) (chips : List Chip) (pieces : List Piece) : EmittedType :=
  let me := j.owner.text
  let inputs := (j.type.namedPorts false).map (Identifier.input me)
  let outputs := (j.type.namedPorts true).map (Identifier.output me)
  { context := {
      debug
      type := me
      className := Identifier.className j.owner
      inputs
      outputs
      constants := (sortedTexts j.type.constants).map (Identifier.constant me)
      locals := undeclared inputs (chipPins j chips ++ outputs)
      bindings := pieces.flatMap (·.bindings)
      objects := pieces.filterMap (·.object)
      blocks := preamble j ++ pieces.map (·.block) }
    needed := sortedNames (pieces.filterMap (·.needed)) }

/-- Makes the class of a type whose chips are evaluated in the order of a plan. -/
def run [Template.Engine] (j : Job) (plan : Plan) (debug : Bool) :
    Except CompileError EmittedType := do
  let chips ← plan.order.mapM (plannedChip j)
  let pieces ← chips.mapM (piece j)
  return assemble j debug chips pieces

end Emit

end LogicBoard
