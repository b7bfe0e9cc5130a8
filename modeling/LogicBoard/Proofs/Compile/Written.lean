/-
  LogicBoard.Proofs.Compile.Written
  ────────────────────────────────
  **WHAT THE BUILT-IN TEMPLATES WRITE.**

  The built-in templates are read as the parts that are listed here, and
  these say what stands in a program, line by line.  A class and a program
  can always be written, since every value that is asked for is there.

  Main statements:
    • `ofText?_classText`, `ofText?_programText` — the templates are read,
    • `writeClass_builtin`, `writeProgram_builtin` — what they write.
-/
import LogicBoard.Compile.Templates
import LogicBoard.Proofs.Template.Render

namespace LogicBoard

open Template

/-! ## §1. The parts of the templates. -/

namespace Templates

/-- The items of a list with commas between them. -/
def listed (e : Expr) : Part := .place (.filter e "join" [.string ", "])

/-- The member of what a loop runs over. -/
def memberOf (name key : String) : Part := .place (.member (.name name) key)

/-! ### The bodies of the loops of a class. -/

def bindingParts : List Part := [
  .text "  const ", memberOf "c" "name", .text " = ", memberOf "c" "value", .text ";\n"]

def fieldParts : List Part := [
  .text "      this.", .place (.name "c"), .text " = ", .place (.name "c"), .text ";\n"]

def objectParts : List Part := [
  .text "      this.", memberOf "chip" "var", .text " = new ", memberOf "chip" "class", .text "(",
  listed (.member (.name "chip") "constants"), .text ");\n"]

def constantParts : List Part := [
  .text "      const ", .place (.name "c"), .text " = this.", .place (.name "c"), .text ";\n"]

def variableParts : List Part := [
  .text "      let ", .place (.name "v"), .text " = false;\n"]

def commentParts : List Part := [
  .text "      // ", memberOf "block" "description", .text ": ", memberOf "block" "id",
  .text " (", memberOf "block" "chip_type", .text ")\n"]

def lineParts : List Part := [.text "      ", .place (.name "line"), .text "\n"]

def blockParts : List Part := [
  .text "\n", .choice (.name "debug") commentParts [],
  .loop "line" (.member (.name "block") "lines") lineParts []]

/-! ### Classes and programs. -/

/-- Up to the blocks. -/
def headParts : List Part := [
  .text "const ", .place (.name "chip_name"), .text " = (function () \x7b\n",
  .loop "c" (.name "constant_vars") bindingParts [],
  .text "\n  return class \x7b\n    constructor(", listed (.name "constants"), .text ") \x7b\n",
  .loop "c" (.name "constants") fieldParts [], .loop "chip" (.name "custom_chips") objectParts [],
  .text "    \x7d\n\n    run(", listed (.name "inputs"), .text ") \x7b\n",
  .loop "c" (.name "constants") constantParts [], .loop "v" (.name "locals") variableParts []]

/-- Behind the blocks. -/
def tailParts : List Part := [
  .text "\n      return [", listed (.name "outputs"), .text "];\n    \x7d\n  \x7d;\n\x7d)();"]

def classParts : List Part := headParts ++ .loop "block" (.name "blocks") blockParts [] :: tailParts

/-- The comment in front of the classes. -/
def summaryParts : List Part := [
  .text "  // ", .place (.name "chip_type"), .text " and ",
  .place (.binary .minus (.filter (.name "blocks") "length" []) (.number 1)),
  .text " nested chip type(s)\n"]

def shiftedParts : List Part := [
  .text "  ", .place (.filter (.name "block") "indent" [.number 2]), .text "\n\n"]

def programParts : List Part := [
  .text "(function () \x7b\n", .choice (.name "debug") summaryParts [],
  .loop "block" (.name "blocks") shiftedParts [],
  .text "  return new ", .place (.name "chip_name"), .text "(", listed (.name "constants"),
  .text ");\n\x7d)()"]

/-- A template that is read and says a text can be filled in. -/
theorem fill_ok {template s : String} {parts : List Part} {scope : Scope} (name : String)
    (hparts : ofText? template = some parts) (htext : renderAll? scope parts = some s) :
    fill name template scope = .ok s := by
  have hfill : Engine.fill? template scope = some s := by
    show render? template scope = some s
    unfold render?
    rw [hparts]
    exact htext
  unfold fill
  rw [hfill]

set_option maxRecDepth 20000 in
theorem ofText?_classText : ofText? classText = some classParts := by
  unfold ofText? tokens? classText places place tag
  -- The characters of the template are spelled out before it is read.
  simp only [String.intercalate_cons_cons, String.intercalate_singleton, String.toList_append,
    String.reduceToList, List.cons_append, List.nil_append]
  with_unfolding_all rfl

set_option maxRecDepth 20000 in
theorem ofText?_programText : ofText? programText = some programParts := by
  unfold ofText? tokens? programText places place tag
  simp only [String.intercalate_cons_cons, String.intercalate_singleton, String.toList_append,
    String.reduceToList, List.cons_append, List.nil_append]
  with_unfolding_all rfl

end Templates

/-! ## §2. Classes. -/

def ConstantBinding.text (b : ConstantBinding) : String :=
  "  const " ++ b.name ++ " = " ++ b.value ++ ";\n"

def ChipObject.text (o : ChipObject) : String :=
  "      this." ++ o.member ++ " = new " ++ o.className ++ "(" ++ ", ".intercalate o.constants
    ++ ");\n"

/-- What is said of a block. -/
def CodeBlock.label (b : CodeBlock) : String :=
  b.description ++ ": " ++ b.id ++ " (" ++ b.type ++ ")"

/-- The comment above a block, if there is to be one. -/
def CodeBlock.comment (debug : Bool) (b : CodeBlock) : String :=
  if debug then "      // " ++ b.label ++ "\n" else ""

def CodeBlock.text (debug : Bool) (b : CodeBlock) : String :=
  "\n" ++ b.comment debug ++ String.join (b.lines.map fun line => "      " ++ line ++ "\n")

namespace ClassContext

/-- The class up to its blocks. -/
def head (c : ClassContext) : String :=
  "const " ++ c.className ++ " = (function () \x7b\n" ++ String.join (c.bindings.map (·.text))
    ++ "\n  return class \x7b\n    constructor(" ++ ", ".intercalate c.constants ++ ") \x7b\n"
    ++ String.join (c.constants.map fun s => "      this." ++ s ++ " = " ++ s ++ ";\n")
    ++ String.join (c.objects.map (·.text))
    ++ "    \x7d\n\n    run(" ++ ", ".intercalate c.inputs ++ ") \x7b\n"
    ++ String.join (c.constants.map fun s => "      const " ++ s ++ " = this." ++ s ++ ";\n")
    ++ String.join (c.locals.map fun s => "      let " ++ s ++ " = false;\n")

/-- The class behind its blocks. -/
def tail (c : ClassContext) : String :=
  "\n      return [" ++ ", ".intercalate c.outputs ++ "];\n    \x7d\n  \x7d;\n\x7d)();"

def text (c : ClassContext) : String :=
  c.head ++ String.join (c.blocks.map (·.text c.debug)) ++ c.tail

end ClassContext

namespace Templates

variable (c : ClassContext)

theorem render_bindings : (Part.loop "c" (.name "constant_vars") bindingParts []).render? c.scope
    = some (String.join (c.bindings.map (·.text))) := by
  refine render?_loop (v := fun b => .record [("name", .string b.name), ("value", .string b.value)])
    rfl fun b _ round => ?_
  refine (renderAll?_cons rfl (renderAll?_cons (render?_place rfl) (renderAll?_cons rfl
    (renderAll?_cons (render?_place rfl) (renderAll?_cons rfl rfl))))).trans (congrArg some ?_)
  unfold ConstantBinding.text
  simp only [String.append_assoc, String.append_empty]

theorem render_fields : (Part.loop "c" (.name "constants") fieldParts []).render? c.scope
    = some (String.join (c.constants.map fun s => "      this." ++ s ++ " = " ++ s ++ ";\n")) := by
  refine render?_loop (v := .string) rfl fun s _ round => ?_
  refine (renderAll?_cons rfl (renderAll?_cons (render?_place rfl) (renderAll?_cons rfl
    (renderAll?_cons (render?_place rfl) (renderAll?_cons rfl rfl))))).trans (congrArg some ?_)
  simp only [String.append_assoc, String.append_empty]

/-- What a loop over the objects of a class runs over. -/
def objectValue (o : ChipObject) : Value := .record [
  ("id", .string o.id), ("var", .string o.member), ("class", .string o.className),
  ("chip_type", .string o.type), ("constants", .ofTexts o.constants)]

theorem render_objects : (Part.loop "chip" (.name "custom_chips") objectParts []).render? c.scope
    = some (String.join (c.objects.map (·.text))) := by
  refine render?_loop (v := objectValue) rfl fun o _ round => ?_
  refine (renderAll?_cons rfl (renderAll?_cons (render?_place rfl) (renderAll?_cons rfl
    (renderAll?_cons (render?_place rfl) (renderAll?_cons rfl (renderAll?_cons
      (render?_join (l := o.constants) rfl ", ") (renderAll?_cons rfl rfl))))))).trans
    (congrArg some ?_)
  unfold ChipObject.text
  simp only [String.append_assoc, String.append_empty]

theorem render_constants : (Part.loop "c" (.name "constants") constantParts []).render? c.scope
    = some (String.join (c.constants.map fun s =>
      "      const " ++ s ++ " = this." ++ s ++ ";\n")) := by
  refine render?_loop (v := .string) rfl fun s _ round => ?_
  refine (renderAll?_cons rfl (renderAll?_cons (render?_place rfl) (renderAll?_cons rfl
    (renderAll?_cons (render?_place rfl) (renderAll?_cons rfl rfl))))).trans (congrArg some ?_)
  simp only [String.append_assoc, String.append_empty]

theorem render_variables : (Part.loop "v" (.name "locals") variableParts []).render? c.scope
    = some (String.join (c.locals.map fun s => "      let " ++ s ++ " = false;\n")) := by
  refine render?_loop (v := .string) rfl fun s _ round => ?_
  refine (renderAll?_cons rfl (renderAll?_cons (render?_place rfl) (renderAll?_cons rfl rfl))).trans
    (congrArg some ?_)
  simp only [String.append_assoc, String.append_empty]

theorem render_head : renderAll? c.scope headParts = some c.head := by
  have hname : (Part.place (.name "chip_name")).render? c.scope = some c.className :=
    render?_place rfl
  have hconstants : (listed (.name "constants")).render? c.scope
      = some (", ".intercalate c.constants) := render?_join rfl ", "
  have hinputs : (listed (.name "inputs")).render? c.scope
      = some (", ".intercalate c.inputs) := render?_join rfl ", "
  refine (renderAll?_cons rfl (renderAll?_cons hname (renderAll?_cons rfl (renderAll?_cons
    (render_bindings c) (renderAll?_cons rfl (renderAll?_cons hconstants (renderAll?_cons rfl
    (renderAll?_cons (render_fields c) (renderAll?_cons (render_objects c) (renderAll?_cons rfl
    (renderAll?_cons hinputs (renderAll?_cons rfl (renderAll?_cons (render_constants c)
    (renderAll?_cons (render_variables c) rfl)))))))))))))).trans (congrArg some ?_)
  unfold ClassContext.head
  simp only [String.append_assoc, String.append_empty]

/-- What a loop over the blocks of a class runs over. -/
def blockValue (b : CodeBlock) : Value := .record [
  ("chip_type", .string b.type), ("id", .string b.id), ("description", .string b.description),
  ("lines", .ofTexts b.lines), ("standard", .boolean b.standard)]

theorem render_block (b : CodeBlock) (round : Value) :
    renderAll? (("block", blockValue b) :: ("loop", round) :: c.scope) blockParts
      = some (b.text c.debug) := by
  have hend : ")\n" = ")" ++ "\n" := by decide
  have hcomment : renderAll? (("block", blockValue b) :: ("loop", round) :: c.scope) commentParts
      = some ("      // " ++ b.label ++ "\n") := by
    refine (renderAll?_cons rfl (renderAll?_cons (render?_place rfl) (renderAll?_cons rfl
      (renderAll?_cons (render?_place rfl) (renderAll?_cons rfl (renderAll?_cons (render?_place rfl)
        (renderAll?_cons rfl rfl))))))).trans (congrArg some ?_)
    unfold CodeBlock.label
    rw [hend]
    simp only [String.append_assoc, String.append_empty]
  have hlines : (Part.loop "line" (.member (.name "block") "lines") lineParts []).render?
      (("block", blockValue b) :: ("loop", round) :: c.scope)
        = some (String.join (b.lines.map fun line => "      " ++ line ++ "\n")) := by
    refine render?_loop (v := .string) rfl fun line _ round => ?_
    refine (renderAll?_cons rfl (renderAll?_cons (render?_place rfl)
      (renderAll?_cons rfl rfl))).trans (congrArg some ?_)
    simp only [String.append_assoc, String.append_empty]
  refine (renderAll?_cons rfl (renderAll?_cons (render?_choice rfl hcomment)
    (renderAll?_cons hlines rfl))).trans (congrArg some ?_)
  unfold CodeBlock.text CodeBlock.comment
  simp only [String.append_assoc, String.append_empty]

theorem render_blocks : (Part.loop "block" (.name "blocks") blockParts []).render? c.scope
    = some (String.join (c.blocks.map (·.text c.debug))) :=
  render?_loop (v := blockValue) rfl fun b _ round => render_block c b round

theorem render_tail : renderAll? c.scope tailParts = some c.tail := by
  have houtputs : (listed (.name "outputs")).render? c.scope
      = some (", ".intercalate c.outputs) := render?_join rfl ", "
  refine (renderAll?_cons rfl (renderAll?_cons houtputs (renderAll?_cons rfl rfl))).trans
    (congrArg some ?_)
  unfold ClassContext.tail
  simp only [String.append_assoc, String.append_empty]

theorem render_class : renderAll? c.scope classParts = some c.text := by
  refine (renderAll?_append (render_head c) (renderAll?_cons (render_blocks c) (render_tail c))).trans
    ?_
  unfold ClassContext.text
  rw [String.append_assoc]

/-- A class can always be written. -/
theorem writeClass_builtin : ({} : Templates).writeClass c = .ok c.text :=
  fill_ok className ofText?_classText (render_class c)

end Templates

/-! ## §3. Programs. -/

namespace ProgramContext

/-- What is said of the program. -/
def label (c : ProgramContext) : String :=
  c.type ++ " and " ++ toString ((c.blocks.length : Int) - 1) ++ " nested chip type(s)"

/-- The comment in front of the classes, if there is to be one. -/
def comment (c : ProgramContext) : String :=
  if c.debug then "  // " ++ c.label ++ "\n" else ""

/-- The program behind its classes. -/
def tail (c : ProgramContext) : String :=
  "  return new " ++ c.className ++ "(" ++ ", ".intercalate c.constants ++ ");\n\x7d)()"

def text (c : ProgramContext) : String :=
  "(function () \x7b\n" ++ c.comment
    ++ String.join (c.blocks.map fun code => "  " ++ indent 2 code ++ "\n\n") ++ c.tail

end ProgramContext

namespace Templates

theorem render_program (c : ProgramContext) : renderAll? c.scope programParts = some c.text := by
  have htype : (Part.place (.name "chip_type")).render? c.scope = some c.type := render?_place rfl
  have hname : (Part.place (.name "chip_name")).render? c.scope = some c.className :=
    render?_place rfl
  have hconstants : (listed (.name "constants")).render? c.scope
      = some (", ".intercalate c.constants) := render?_join rfl ", "
  have hcount : (Part.place
      (.binary .minus (.filter (.name "blocks") "length" []) (.number 1))).render? c.scope
        = some (toString ((c.blocks.length : Int) - 1)) := by
    show some (toString (((c.blocks.map Value.string).length : Int) - 1)) = _
    rw [List.length_map]
  have hend : " nested chip type(s)\n" = " nested chip type(s)" ++ "\n" := by decide
  have hcomment : renderAll? c.scope summaryParts = some ("  // " ++ c.label ++ "\n") := by
    refine (renderAll?_cons rfl (renderAll?_cons htype (renderAll?_cons rfl
      (renderAll?_cons hcount (renderAll?_cons rfl rfl))))).trans (congrArg some ?_)
    unfold ProgramContext.label
    rw [hend]
    simp only [String.append_assoc, String.append_empty]
  have hclasses : (Part.loop "block" (.name "blocks") shiftedParts []).render? c.scope
      = some (String.join (c.blocks.map fun code => "  " ++ indent 2 code ++ "\n\n")) := by
    refine render?_loop (v := .string) rfl fun code _ round => ?_
    refine (renderAll?_cons rfl (renderAll?_cons (render?_place (s := indent 2 code) rfl)
      (renderAll?_cons rfl rfl))).trans (congrArg some ?_)
    simp only [String.append_assoc, String.append_empty]
  refine (renderAll?_cons rfl (renderAll?_cons (render?_choice rfl hcomment) (renderAll?_cons hclasses
    (renderAll?_cons rfl (renderAll?_cons hname (renderAll?_cons rfl (renderAll?_cons hconstants
      (renderAll?_cons rfl rfl)))))))).trans (congrArg some ?_)
  unfold ProgramContext.text ProgramContext.comment ProgramContext.tail
  simp only [String.append_assoc, String.append_empty]

/-- A program can always be written. -/
theorem writeProgram_builtin (c : ProgramContext) :
    ({} : Templates).writeProgram c = .ok c.text :=
  fill_ok programName ofText?_programText (render_program c)

end Templates

end LogicBoard
