/-
  LogicBoard.Command.Run
  ────────────────────────────────
  **CARRYING OUT COMMANDS.**

  A command reads and changes files and prints to two places: answers to the
  one, reports and progress to the other.  What was printed and written
  before a failure stays.
-/
import LogicBoard.Command.Arguments
import LogicBoard.Compile.Compiler
import LogicBoard.Edit.Editor
import LogicBoard.Store.Directory

namespace LogicBoard

/-! ## §1. Steps of a command. -/

/-- The files, and what was printed. -/
structure Host where
  disk : Disk
  /-- Answers. -/
  out : String
  /-- Reports, progress and failures. -/
  err : String

/-- How a command is carried out. -/
structure CommandContext where
  options : CommandOptions
  /-- Do reports go to a terminal? -/
  terminal : Bool

/-- Are reports coloured? -/
def CommandContext.isColoured (c : CommandContext) : Bool :=
  match c.options.colouring with
  | .auto => c.terminal
  | .always => true
  | .never => false

/-- A step of a command. -/
abbrev Action := ReaderT CommandContext (ExceptT CommandError (StateM Host))

namespace Action

/-- Prints a line of an answer. -/
def print (line : String) : Action Unit :=
  modify fun h => { h with out := h.out ++ line ++ "\n" }

/-- Prints a line of progress. -/
def tell (line : String) : Action Unit :=
  modify fun h => { h with err := h.err ++ "   " ++ line ++ "\n" }

/-- Prints a line of progress unless the command is quiet. -/
def status (line : String) : Action Unit := do
  unless (← read).options.quiet do tell line

/-- Prints a line of progress if the command is verbose. -/
def detail (line : String) : Action Unit := do
  if (← read).options.verbose then tell line

/-- Reports diagnostics: as text, or as an answer of one document per line. -/
def report (ds : List Diagnostic) : Action Unit := do
  let c ← read
  match c.options.format with
  | .text =>
    let text := String.join (ds.map (·.terminalText c.isColoured))
    modify fun h => { h with err := h.err ++ text }
  | .json => modify fun h => { h with out := h.out ++ String.join (ds.map (·.jsonLine)) }

/-- A result or a failure. -/
def ofExcept {ε α : Type} (f : ε → CommandError) : Except ε α → Action α
  | .ok a => pure a
  | .error e => throw (f e)

/-- Goes on only under a condition. -/
def demand (condition : Bool) (e : CommandError) : Action Unit :=
  if condition then pure () else throw e

/-- A value that has to be there. -/
def ofOption {α : Type} (e : CommandError) : Option α → Action α
  | some a => pure a
  | none => throw e

end Action

/-! ## §2. Design directories. -/

/-- The types of a design that is kept in a directory. -/
abbrev Design := Registry DirectoryStore

/-- The design directory: the home directory unless there is an option for it, which may also be
the path of the configuration. -/
def CommandOptions.root (o : CommandOptions) (d : Disk) : String :=
  match o.config with
  | none => d.homePath
  | some path => if d.isFile path then Path.parent path else path

/-- The directory of the records. -/
def CommandOptions.storeDir (o : CommandOptions) (root : String) (s : Settings) : String :=
  o.store.getD (Path.join root s.storage.dir)

/-- The name of the configuration in a design directory. -/
def configName : String := "chipgrid.toml"

/-- The settings of a design directory; the default ones if there is no configuration. -/
def settingsIn (d : Disk) (root : String) : Except CommandError Settings :=
  match d.readText (Path.join root configName) with
  | .ok text => (Settings.ofText text).mapError .config
  | .error .notFound => .ok {}
  | .error e => .error (.configFile e)

namespace Action

/-- The design directory. -/
def root : Action String := do return (← read).options.root (← get).disk

/-- The settings of a design directory. -/
def settings (root : String) : Action Settings := do ofExcept id (settingsIn (← get).disk root)

/-- A template: the one in the directory, or else the built-in one. -/
def template (dir name builtIn : String) : Action String := do
  let path := Path.join dir name
  match (← get).disk.readText path with
  | .ok text => return text
  | .error .notFound => return builtIn
  | .error e => throw (.compile (.templateFile path e.text))

/-- The templates of a design directory. -/
def templates (root : String) (s : Settings) : Action Templates := do
  match s.templates with
  | none => return {}
  | some dir =>
    let dir := Path.join root dir
    return {
      ofClass := ← template dir Templates.className Templates.classText
      ofProgram := ← template dir Templates.programName Templates.programText }

/-- Opens a design directory. -/
def design (root : String) (s : Settings) : Action Design := do
  let dir := (← read).options.storeDir root s
  detail ("Opening type store " ++ dir)
  ofExcept .store (Registry.load s (.ofDir (← get).disk dir s.storage.stem))

/-- Opens the design directory with its settings. -/
def openDesign : Action Design := do
  let root ← root
  design root (← settings root)

/-- A name, which has to be that of a custom type. -/
def customType (r : Design) (name : String) : Action Name := do
  let name := Name.ofText name
  demand (r.isCustom name)
    (if r.contains name then .standardType name else .noCustomType name)
  return name

/-- Makes a change of a design. -/
def change {α : Type} (outcome : Registry.Outcome DirectoryStore α) : Action α := do
  modify fun h => { h with disk := outcome.2.store.disk }
  ofExcept .store outcome.1

/-! ## §3. Commands on types. -/

/-- The line of a standard type. -/
def standardLine (r : Design) (name : Name) : String :=
  let t := r.types.get name
  "  " ++ name.text ++ " " ++ toString t.size.x ++ "x" ++ toString t.size.y ++ "  "
    ++ t.description

/-- The line of a custom type. -/
def customLine (r : Design) (name : Name) : String :=
  let t := r.types.get name
  "  " ++ name.text ++ " " ++ toString t.size.x ++ "x" ++ toString t.size.y ++ "  "
    ++ toString t.content.chips.size ++ " chip(s), " ++ toString t.content.wires.length
    ++ " wire(s)" ++ (if name = r.base then " (base)" else "")

/-- Lists all types. -/
def types : Action Unit := do
  let r ← openDesign
  print "standard:"
  Registry.standardNames.forM fun name => print (standardLine r name)
  print "custom:"
  r.custom.keys.forM fun name => print (customLine r name)

/-- Defines a type. -/
def new (name : String) : Action Unit := do
  let r ← openDesign
  let name := Name.ofText name
  let defined ← ofOption (.standardName name) (← change (r.newType name))
  status ("Created chip type `" ++ defined.text ++ "`")

/-- Resizes a type and prints the size that it got. -/
def resize (name : String) (wanted : Vec) : Action Unit := do
  let r ← openDesign
  let name ← customType r name
  let size ← change (r.setSize name wanted)
  if size ≠ wanted then status ("Clamped " ++ wanted.text ++ " to " ++ size.text)
  status ("Resized `" ++ name.text ++ "` to " ++ size.text)
  print (toString size.x ++ " " ++ toString size.y)

/-- Names a port. -/
def port (name : String) (output : Bool) (position : Nat) (port : String) : Action Unit := do
  let r ← openDesign
  let name ← customType r name
  demand (← change (r.setPort name position port output))
    (.portRefused name output position port)
  status ("Renamed port " ++ toString position ++ " of `" ++ name.text ++ "`")

/-- Adds a constant slot. -/
def addConstant (name constant : String) : Action Unit := do
  let r ← openDesign
  let name ← customType r name
  change (r.addConstant name constant)
  status ("Added constant " ++ ChipType.spelled constant ++ " to `" ++ name.text ++ "`")

/-- Removes a constant slot. -/
def removeConstant (name constant : String) : Action Unit := do
  let r ← openDesign
  let name ← customType r name
  change (r.removeConstant name constant)
  status ("Removed constant " ++ ChipType.spelled constant ++ " from `" ++ name.text ++ "`")

/-! ## §4. Commands on contents. -/

/-- The constant and the value in a text with an equals sign between them. -/
def assignment? (s : String) : Option (String × Constant) :=
  match s.toList.dropWhile (· ≠ '=') with
  | [] => none
  | _ :: value =>
    let key := String.ofList (s.toList.takeWhile (· ≠ '='))
    some (Text.trim key, .ofTyped (String.ofList value))

/-- Fills a constant of a chip. -/
def fill (types : TypeLookup) (c : Chip) (text : String) : Action Chip := do
  let (key, value) ← ofOption (.notAssignment text) (assignment? text)
  ofOption (.noConstant c.type key) (c.setConstant? key value types)

/-- Places a chip. -/
def place (owner type id : String) (pos : Vec) (turns : Int) (constants : List String) :
    Action Unit := do
  let r ← openDesign
  let owner ← customType r owner
  let type := Name.ofText type
  demand (r.contains type) (.noType type)
  let id := Name.ofText id
  let chip ← constants.foldlM (fill r.types) ((Chip.ofPlace id type pos).rotate turns)
  let e ← ofOption (.chipRefused owner id) ((Editor.ofType r owner).addChip? r.types chip)
  match e.content.chips.find? id with
  | some placed => status ("Placed `" ++ placed.id.text ++ "` at " ++ placed.pos.text)
  | none => pure ()
  change (e.commit r)

/-- Connects two pins and tells whether a route was found. -/
def wire (owner a b : String) (layer : Int) : Action Unit := do
  let r ← openDesign
  let owner ← customType r owner
  let a ← ofOption (.notPin a) (Pin.ofText? a)
  let b ← ofOption (.notPin b) (Pin.ofText? b)
  let connected ← ofExcept (fun _ => .noEdge) ((Editor.ofType r owner).connect r.types a b layer)
  let e ← ofOption (.wireRefused a b) connected
  match e.content.wires.getLast? with
  | some w => status ((if w.valid then "Wired " else "Unrouted ") ++ w.id.text)
  | none => pure ()
  change (e.commit r)

/-- Routes all wires that were not drawn by hand. -/
def reroute (owner : String) : Action Unit := do
  let r ← openDesign
  let owner ← customType r owner
  let (routed, e) ← ofExcept (fun _ => .noEdge) ((Editor.ofType r owner).reroute r.types none)
  let unrouted := e.content.wires.countP fun w => !w.valid
  change (e.commit r)
  status ("Rerouted " ++ toString routed ++ " wire(s) in `" ++ owner.text ++ "`, "
    ++ toString unrouted ++ " without a route")

/-- Reports what is wrong with a type and answers whether nothing is. -/
def check (owner : String) : Action Bool := do
  let r ← openDesign
  let owner ← customType r owner
  status ("Checking `" ++ owner.text ++ "`")
  let ds := ((Editor.ofType r owner).problems r.types).map (·.diagnostic owner)
  report ds
  if (← read).options.format = .text then
    status ("Result: " ++ toString ds.length ++ " error(s)")
  return ds.isEmpty

/-! ## §5. Compiling. -/

/-- What is compiled, with the design directory and its settings. -/
def source (input : CompileInput) : Action (Source × String × Settings) := do
  match input with
  | .file path =>
    let text ← ofExcept (.readFile path) ((← get).disk.readText path)
    let root ← root
    let s ← settings root
    return (← ofExcept (.compile ∘ .source) (Source.ofText text), root, s)
  | .stored type =>
    let root ← root
    let s ← settings root
    let r ← design root s
    return (r.source (← customType r type), root, s)

/-- Compiles a program and prints it or writes it to a file. -/
def compile (input : CompileInput) (output : Option String) (debug : Bool) : Action Unit := do
  let (source, root, s) ← source input
  let compiler : Compiler := {
    settings := { s.compile with debug := s.compile.debug || debug }
    templates := ← templates root s }
  status ("Compiling `" ++ source.chip.type.text ++ "`")
  let (warnings, result) := compiler.compile source
  report warnings
  let program ← ofExcept .compile result
  detail ("Built " ++ ", ".intercalate (program.order.map (·.text)))
  match output with
  | none => print program.code
  | some path =>
    let disk ← ofExcept (.writeFile path) ((← get).disk.writeText path program.code)
    modify fun h => { h with disk }
    status ("Wrote " ++ path)

/-! ## §6. Whole commands. -/

/-- Carries out a command and answers whether all is well. -/
def ofCommand : Command → Action Bool
  | .types => do types; return true
  | .new name => do new name; return true
  | .resize name size => do resize name size; return true
  | .port name output position port => do Action.port name output position port; return true
  | .addConstant name constant => do addConstant name constant; return true
  | .removeConstant name constant => do removeConstant name constant; return true
  | .place owner type id pos turns constants => do
    place owner type id pos turns constants
    return true
  | .wire owner a b layer => do wire owner a b layer; return true
  | .reroute name => do reroute name; return true
  | .check name => check name
  | .compile input output debug => do compile input output debug; return true

/-- Reports a failure. -/
def complain (e : CommandError) : Action Unit :=
  match e.diagnostic? with
  | some d => report [d]
  | none => modify fun h => { h with err := h.err ++ "error: " ++ e.message ++ "\n" }

/-- Carries out a command and answers the exit code. -/
def exitCode (c : Command) : Action Nat := do
  try
    return if ← ofCommand c then 0 else 1
  catch e => do
    complain e
    return e.exitCode

end Action

/-! ## §7. Command lines. -/

/-- The name and the version of the program. -/
def versionText : String := "chipgrid 0.1.0"

/-- A summary of the commands. -/
def helpText : String := "\n".intercalate [
  "Usage: chipgrid [OPTIONS] <COMMAND>",
  "",
  "Commands:",
  "  types",
  "  new <NAME>",
  "  resize <NAME> <X> <Y>",
  "  port <NAME> <input|output> <INDEX> <PORT>",
  "  const <NAME> <add|remove> <CONSTANT>",
  "  place <OWNER> <CHIP_TYPE> <ID> <X> <Y> [--rotation <N>] [--const <NAME=VALUE>]...",
  "  wire <OWNER> <FROM> <TO> [--layer <N>]",
  "  reroute <NAME>",
  "  check <NAME>",
  "  compile <SOURCE>|--type <NAME> [-o, --output <FILE>] [--debug]",
  "",
  "Options:",
  "  -q, --quiet",
  "  -v, --verbose",
  "      --color <auto|always|never>",
  "      --config <PATH>",
  "      --store <DIR>",
  "      --format <text|json>",
  "  -h, --help",
  "  -V, --version"]

/-- Carries out a command line and answers the exit code. -/
def runArguments (terminal : Bool) (disk : Disk) (words : List String) : Nat × Host :=
  match Arguments.read words with
  | .error .version => (0, ⟨disk, versionText ++ "\n", ""⟩)
  | .error .help => (0, ⟨disk, helpText ++ "\n", ""⟩)
  | .error .misuse => (2, ⟨disk, "", "error: unexpected arguments\n\n" ++ helpText ++ "\n"⟩)
  | .ok (options, command) =>
    match Action.exitCode command ⟨options, terminal⟩ ⟨disk, "", ""⟩ with
    | (.ok code, host) => (code, host)
    | (.error _, host) => (1, host)

/-! ## §8. Files of a command. -/

/-- The files that a command reads or writes by their names. -/
def Command.ownFiles : Command → List String
  | .compile (.file path) output _ => path :: output.toList
  | .compile (.stored _) output _ => output.toList
  | _ => []

/-- The templates that may replace the built-in ones. -/
def templateFiles (root : String) (s : Settings) : List String :=
  match s.templates with
  | none => []
  | some dir => [Templates.className, Templates.programName].map (Path.join (Path.join root dir))

/-- The files and the directories that a command line may need, as far as the files at hand
tell. -/
def neededPaths (d : Disk) (words : List String) : List String × List String :=
  match Arguments.read words with
  | .error _ => ([], [])
  | .ok (options, command) =>
    let root := options.root d
    let known := options.config.toList ++ Path.join root configName :: command.ownFiles
    match settingsIn d root with
    | .error _ => (known, [])
    | .ok s => (known ++ templateFiles root s, [options.storeDir root s])

end LogicBoard
