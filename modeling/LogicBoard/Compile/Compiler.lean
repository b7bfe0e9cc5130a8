/-
  LogicBoard.Compile.Compiler
  ────────────────────────────────
  **COMPILING SOURCES.**

  A source is compiled type by type, each type after the types it needs and
  the root type last.  The standard types cannot be redefined by a source.
  Warnings are reported type by type, up to the error that stops the
  compilation, if there is one.
-/
import LogicBoard.Compile.Emit
import LogicBoard.Design.Library

namespace LogicBoard

/-! ## §1. Programs. -/

/-- A composite type, compiled. -/
structure CompiledType where
  /-- The text of the class. -/
  code : String
  /-- The composite types of its wired chips, in rising order. -/
  needed : List Name
  /-- The wired chips in the order of their evaluation. -/
  order : List Name
deriving DecidableEq

/-- A compiled source. -/
structure Program where
  /-- The text, an expression whose value is an instance of the root type. -/
  code : String
  root : Name
  /-- The compiled types, each after the types it needs. -/
  order : List Name
  /-- The root type and all types that are needed, in rising order. -/
  needed : List Name
  types : Table Name CompiledType
deriving DecidableEq

/-- A compiler. -/
structure Compiler where
  settings : CompileSettings := {}
  templates : Templates := {}

namespace Compiler

/-! ## §2. Types. -/

/-- The types that a source is compiled with. -/
def knownTypes (s : Source) : TypeTable :=
  (s.types.mapValues ChipType.canonical).overlay Library.standard

/-- The warnings about the chips of a type. -/
def warnings (type : Name) (plan : Plan) : List Diagnostic :=
  plan.dead.map (.ofDeadChip type) ++ plan.loops.map (.ofLoop type)

/-- Compiles one type with its plan. -/
def compileType [Template.Engine] (c : Compiler) (job : Emit.Job) (plan : Plan) :
    Except CompileError CompiledType := do
  let emitted ← Emit.run job plan c.settings.debug
  return ⟨← c.templates.writeClass emitted.context, emitted.needed, plan.order⟩

/-- Compiles types in order, together with the warnings up to the first error. -/
def compileTypes [Template.Engine] (c : Compiler) (types : TypeTable) :
    List Name → List Diagnostic × Except CompileError (List (Name × CompiledType))
  | [] => ([], .ok [])
  | name :: rest =>
    match types.find? name with
    | none => ([], .error (.lostType name))
    | some type =>
      let plan := type.content.plan name c.settings
      match c.compileType ⟨name, type, types⟩ plan with
      | .error e => (warnings name plan, .error e)
      | .ok t =>
        let (more, result) := c.compileTypes types rest
        (warnings name plan ++ more, result.map ((name, t) :: ·))

/-! ## §3. Sources. -/

/-- Refuses a root type that has no content to compile. -/
def checkRoot (types : TypeTable) (root : Name) : Except CompileError Unit :=
  match types.find? root with
  | none => .error (.root root .undefined)
  | some t => if t.isComposite then .ok () else .error (.root root .standard)

/-- The order in which the types that a root type needs are compiled. -/
def typeOrder (types : TypeTable) (root : Name) : Except CompileError (List Name) := do
  checkRoot types root
  buildOrder (← types.dependencies root)

/-- Puts the program together. -/
def assemble [Template.Engine] (c : Compiler) (s : Source) (types : TypeTable)
    (compiled : List (Name × CompiledType)) : Except CompileError Program := do
  let root := s.chip.type
  let constants := (s.chip.resolvedConstants types.lookup).values.map (·.literal)
  let blocks := compiled.map (·.2.code)
  let code ← c.templates.writeProgram
    ⟨root.text, Identifier.className root, constants, blocks, c.settings.debug⟩
  return {
    code
    root
    order := compiled.map (·.1)
    needed := sortedNames (root :: compiled.flatMap (·.2.needed))
    types := .ofList compiled }

/-- Compiles a source; the warnings come first. -/
def compile [Template.Engine] (c : Compiler) (s : Source) :
    List Diagnostic × Except CompileError Program :=
  let types := knownTypes s
  match typeOrder types s.chip.type with
  | .error e => ([], .error e)
  | .ok order =>
    let (warnings, result) := c.compileTypes types order
    (warnings, result.bind (c.assemble s types))

/-- Compiles the source in a text. -/
def compileText [Template.Engine] (c : Compiler) (text : String) :
    List Diagnostic × Except CompileError Program :=
  match Source.ofText text with
  | .error e => ([], .error (.source e))
  | .ok s => c.compile s

end Compiler

end LogicBoard
